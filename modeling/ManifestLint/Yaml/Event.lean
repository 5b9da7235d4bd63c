import ManifestLint.Yaml.Token

/-!
Events of a document: its nodes in the order of the text, where each collection has a start and an
end. They come from the tokens by a stack of goals, each of which says what the grammar expects
next. Main statement: each step makes the tokens and goals that are left smaller.
-/

namespace ManifestLint.Yaml

/-- What may stand before a node: a name for it, and a tag. -/
structure Properties where
  anchor : Option (List Char)
  tag : Option (List UInt8)
deriving DecidableEq, Repr

def Properties.absent : Properties := ⟨none, none⟩

inductive Event where
  | alias (name : List Char)
  | scalar (properties : Properties) (style : Style) (text : String)
  | sequenceStart (properties : Properties)
  | sequenceEnd
  | mappingStart (properties : Properties)
  | mappingEnd
deriving DecidableEq, Repr

def Event.omitted (properties : Properties) : Event := .scalar properties .plain ""

inductive Goal where
  | node (block indentless : Bool)
  | sequenceItems
  | indentlessItems
  | mappingKeys
  | mappingValue
  | flowItems (first : Bool)
  | pairKey
  | pairValue
  | pairEnd
  | flowKeys (first : Bool)
  | flowValue
  | omittedValue
deriving DecidableEq, Repr

/-- An event, if one is complete, the goals in place of the one at hand, and the tokens left. -/
structure Advance where
  event : Option Event
  goals : List Goal
  rest : List Token
deriving DecidableEq, Repr

abbrev Handles := List (List Char × List UInt8)

def Handles.standard : Handles :=
  [(['!'], "!".toUTF8.toList), (['!', '!'], "tag:yaml.org,2002:".toUTF8.toList)]

def Handles.resolve (handles : Handles) (name : TagName) : Option (List UInt8) :=
  if name.handle.isEmpty then some name.suffix
  else (handles.lookup name.handle).map (· ++ name.suffix)

/-- An anchor and a tag, in either order and each at most once. -/
def readProperties (handles : Handles) : List Token → Option (Properties × List Token)
  | .anchor anchor :: .tag name :: rest => do some (⟨anchor, ← handles.resolve name⟩, rest)
  | .tag name :: .anchor anchor :: rest => do some (⟨anchor, ← handles.resolve name⟩, rest)
  | .anchor anchor :: rest => some (⟨anchor, none⟩, rest)
  | .tag name :: rest => do some (⟨none, ← handles.resolve name⟩, rest)
  | rest => some (.absent, rest)

/-- The tag `!` says of a scalar that it has no other tag. -/
def Properties.ofScalar (properties : Properties) : Properties :=
  if properties.tag = some "!".toUTF8.toList then { properties with tag := none } else properties

def omittedNode (properties : Properties) (tokens : List Token) : Option Advance :=
  if properties = .absent then none else some ⟨some (.omitted properties), [], tokens⟩

def readBody (block indentless : Bool) (properties : Properties) : List Token → Option Advance
  | [] => none
  | token :: rest =>
      match token with
      | .scalar style text => some ⟨some (.scalar properties.ofScalar style text), [], rest⟩
      | .flowSequenceStart => some ⟨some (.sequenceStart properties), [.flowItems true], rest⟩
      | .flowMappingStart => some ⟨some (.mappingStart properties), [.flowKeys true], rest⟩
      | .blockEntry =>
          if indentless then some ⟨some (.sequenceStart properties), [.indentlessItems],
            token :: rest⟩
          else omittedNode properties (token :: rest)
      | .blockSequenceStart =>
          if block then some ⟨some (.sequenceStart properties), [.sequenceItems], rest⟩
          else omittedNode properties (token :: rest)
      | .blockMappingStart =>
          if block then some ⟨some (.mappingStart properties), [.mappingKeys], rest⟩
          else omittedNode properties (token :: rest)
      | token => omittedNode properties (token :: rest)

def readNode (handles : Handles) (block indentless : Bool) (tokens : List Token) : Option Advance :=
  match tokens with
  | .alias name :: rest => some ⟨some (.alias name), [], rest⟩
  | tokens => do
      let (properties, rest) ← readProperties handles tokens
      readBody block indentless properties rest

/-- A node, then more goals; one of the tokens listed means that the node is left out. -/
def nodeUnless (stops : List Token) (node : Goal) (goals : List Goal) : List Token → Option Advance
  | [] => none
  | token :: rest =>
      if stops.contains token then some ⟨some (.omitted .absent), goals, token :: rest⟩
      else some ⟨none, node :: goals, token :: rest⟩

/-- An item of a flow sequence, where an item is expected or the end. A pair is a mapping. -/
def readFlowItem (tokens : List Token) : Option Advance :=
  match tokens with
  | .flowSequenceEnd :: rest => some ⟨some .sequenceEnd, [], rest⟩
  | .key :: rest =>
      some ⟨some (.mappingStart .absent), [.pairKey, .pairValue, .pairEnd, .flowItems false], rest⟩
  | _ :: _ => some ⟨none, [.node false false, .flowItems false], tokens⟩
  | [] => none

def readFlowEntry (tokens : List Token) : Option Advance :=
  match tokens with
  | .flowMappingEnd :: rest => some ⟨some .mappingEnd, [], rest⟩
  | .key :: rest =>
      nodeUnless [.value, .flowEntry, .flowMappingEnd] (.node false false)
        [.flowValue, .flowKeys false] rest
  | _ :: _ => some ⟨none, [.node false false, .omittedValue, .flowKeys false], tokens⟩
  | [] => none

/-- Works on one goal. There is no step where the tokens do not fit the grammar or have run out. -/
def Goal.step (handles : Handles) (goal : Goal) (tokens : List Token) : Option Advance :=
  match goal, tokens with
  | _, [] => none
  | .node block indentless, tokens => readNode handles block indentless tokens
  | .sequenceItems, .blockEntry :: rest =>
      nodeUnless [.blockEntry, .blockEnd] (.node true false) [.sequenceItems] rest
  | .sequenceItems, .blockEnd :: rest => some ⟨some .sequenceEnd, [], rest⟩
  | .sequenceItems, _ => none
  | .indentlessItems, .blockEntry :: rest =>
      nodeUnless [.blockEntry, .key, .value, .blockEnd] (.node true false) [.indentlessItems] rest
  | .indentlessItems, tokens => some ⟨some .sequenceEnd, [], tokens⟩
  | .mappingKeys, .key :: rest =>
      nodeUnless [.key, .value, .blockEnd] (.node true true) [.mappingValue] rest
  | .mappingKeys, .blockEnd :: rest => some ⟨some .mappingEnd, [], rest⟩
  | .mappingKeys, _ => none
  | .mappingValue, .value :: rest =>
      nodeUnless [.key, .value, .blockEnd] (.node true true) [.mappingKeys] rest
  | .mappingValue, tokens => some ⟨some (.omitted .absent), [.mappingKeys], tokens⟩
  | .flowItems true, tokens => readFlowItem tokens
  | .flowItems false, .flowEntry :: rest => readFlowItem rest
  | .flowItems false, .flowSequenceEnd :: rest => some ⟨some .sequenceEnd, [], rest⟩
  | .flowItems false, _ => none
  | .pairKey, .value :: rest => some ⟨some (.omitted .absent), [], rest⟩
  | .pairKey, .flowEntry :: rest => some ⟨some (.omitted .absent), [], rest⟩
  | .pairKey, .flowSequenceEnd :: rest => some ⟨some (.omitted .absent), [], rest⟩
  | .pairKey, tokens => some ⟨none, [.node false false], tokens⟩
  | .pairValue, .value :: rest =>
      nodeUnless [.flowEntry, .flowSequenceEnd] (.node false false) [] rest
  | .pairValue, tokens => some ⟨some (.omitted .absent), [], tokens⟩
  | .pairEnd, tokens => some ⟨some .mappingEnd, [], tokens⟩
  | .flowKeys true, tokens => readFlowEntry tokens
  | .flowKeys false, .flowEntry :: rest => readFlowEntry rest
  | .flowKeys false, .flowMappingEnd :: rest => some ⟨some .mappingEnd, [], rest⟩
  | .flowKeys false, _ => none
  | .flowValue, .value :: rest =>
      nodeUnless [.flowEntry, .flowMappingEnd] (.node false false) [] rest
  | .flowValue, tokens => some ⟨some (.omitted .absent), [], tokens⟩
  | .omittedValue, tokens => some ⟨some (.omitted .absent), [], tokens⟩

/-- How many steps a goal may take without using up a token. -/
def Goal.weight : Goal → Nat
  | .node _ _ | .mappingValue => 2
  | .pairKey => 3
  | .flowItems true => 4
  | .flowKeys true => 5
  | _ => 1

def weigh : List Goal → Nat
  | [] => 0
  | goal :: goals => goal.weight + weigh goals

def work (goals : List Goal) (tokens : List Token) : Nat := 8 * tokens.length + weigh goals

@[simp] theorem weigh_append (first second : List Goal) :
    weigh (first ++ second) = weigh first + weigh second := by
  induction first with
  | nil => simp only [List.nil_append, weigh, Nat.zero_add]
  | cons goal goals induction => simp only [List.cons_append, weigh, induction, Nat.add_assoc]

theorem work_lt_of_taken {goal : Goal} {goals : List Goal} (token : Token) (rest : List Token)
    (few : weigh goals < 8 + goal.weight) : work goals rest < work [goal] (token :: rest) := by
  simp only [work, weigh, List.length_cons]
  omega

theorem work_lt_of_kept {goal : Goal} {goals : List Goal} (tokens : List Token)
    (fewer : weigh goals < goal.weight) : work goals tokens < work [goal] tokens := by
  simp only [work, weigh]
  omega

theorem work_le_of_shorter (goals : List Goal) {tokens rest : List Token}
    (shorter : rest.length ≤ tokens.length) :
    work goals rest ≤ work goals tokens := by
  simp only [work]
  omega

theorem work_le_of_node_unless {stops : List Token} {node : Goal} {goals : List Goal}
    {tokens : List Token} {next : Advance} (read : nodeUnless stops node goals tokens = some next) :
    work next.goals next.rest ≤ work (node :: goals) tokens := by
  unfold nodeUnless at read
  split at read
  · cases read
  · split at read
    · cases read
      simp only [work, weigh]
      omega
    · cases read
      exact Nat.le_refl _

theorem work_lt_of_taken_unless {goal node : Goal} {stops : List Token} {goals : List Goal}
    {token : Token} {rest : List Token} {next : Advance}
    (read : nodeUnless stops node goals rest = some next)
    (few : weigh (node :: goals) < 8 + goal.weight) :
    work next.goals next.rest < work [goal] (token :: rest) :=
  Nat.lt_of_le_of_lt (work_le_of_node_unless read) (work_lt_of_taken token rest few)

theorem length_le_of_read_properties {handles : Handles} {properties : Properties}
    {tokens rest : List Token} (read : readProperties handles tokens = some (properties, rest)) :
    rest.length ≤ tokens.length := by
  unfold readProperties at read
  split at read
  · obtain ⟨_, _, same⟩ := Option.bind_eq_some_iff.1 read
    cases same
    simp only [List.length_cons]
    omega
  · obtain ⟨_, _, same⟩ := Option.bind_eq_some_iff.1 read
    cases same
    simp only [List.length_cons]
    omega
  · cases read
    exact Nat.le_succ _
  · obtain ⟨_, _, same⟩ := Option.bind_eq_some_iff.1 read
    cases same
    exact Nat.le_succ _
  · cases read
    exact Nat.le_refl _

section
variable {block indentless : Bool} {properties : Properties} {tokens : List Token} {next : Advance}

theorem work_lt_of_omitted_node (read : omittedNode properties tokens = some next) :
    work next.goals next.rest < work [.node block indentless] tokens := by
  simp only [omittedNode, Option.ite_none_left_eq_some] at read
  cases read.2
  exact work_lt_of_kept tokens (show 0 < 2 by decide)

theorem work_lt_of_read_body (read : readBody block indentless properties tokens = some next) :
    work next.goals next.rest < work [.node block indentless] tokens := by
  unfold readBody at read
  split at read
  · cases read
  split at read
  · cases read
    exact work_lt_of_taken _ _ (show 0 < 8 + 2 by decide)
  · cases read
    exact work_lt_of_taken _ _ (show 4 < 8 + 2 by decide)
  · cases read
    exact work_lt_of_taken _ _ (show 5 < 8 + 2 by decide)
  · split at read
    · cases read
      exact work_lt_of_kept _ (show 1 < 2 by decide)
    · exact work_lt_of_omitted_node read
  · split at read
    · cases read
      exact work_lt_of_taken _ _ (show 1 < 8 + 2 by decide)
    · exact work_lt_of_omitted_node read
  · split at read
    · cases read
      exact work_lt_of_taken _ _ (show 1 < 8 + 2 by decide)
    · exact work_lt_of_omitted_node read
  · exact work_lt_of_omitted_node read

theorem work_lt_of_read_node {handles : Handles}
    (read : readNode handles block indentless tokens = some next) :
    work next.goals next.rest < work [.node block indentless] tokens := by
  unfold readNode at read
  split at read
  · cases read
    exact work_lt_of_taken _ _ (show 0 < 8 + 2 by decide)
  · simp only [Option.bind_eq_bind, Option.bind_eq_some_iff] at read
    obtain ⟨⟨_, rest⟩, found, body⟩ := read
    exact Nat.lt_of_lt_of_le (work_lt_of_read_body body)
      (work_le_of_shorter _ (length_le_of_read_properties found))

theorem work_lt_of_read_flow_item (read : readFlowItem tokens = some next) :
    work next.goals next.rest < work [.flowItems true] tokens := by
  unfold readFlowItem at read
  split at read
  · cases read
    exact work_lt_of_taken _ _ (show 0 < 8 + 4 by decide)
  · cases read
    exact work_lt_of_taken _ _ (show 6 < 8 + 4 by decide)
  · cases read
    exact work_lt_of_kept _ (show 3 < 4 by decide)
  · cases read

theorem work_lt_of_read_flow_entry (read : readFlowEntry tokens = some next) :
    work next.goals next.rest < work [.flowKeys true] tokens := by
  unfold readFlowEntry at read
  split at read
  · cases read
    exact work_lt_of_taken _ _ (show 0 < 8 + 5 by decide)
  · exact work_lt_of_taken_unless read (by decide)
  · cases read
    exact work_lt_of_kept _ (show 4 < 5 by decide)
  · cases read

end

/-- One case for each line of the grammar: a token is taken, or the goals get lighter. -/
theorem work_lt_of_step {handles : Handles} {goal : Goal} {tokens : List Token} {next : Advance}
    (stepped : goal.step handles tokens = some next) :
    work next.goals next.rest < work [goal] tokens := by
  unfold Goal.step at stepped
  split at stepped
  · cases stepped
  · exact work_lt_of_read_node stepped
  · exact work_lt_of_taken_unless stepped (by decide)
  · cases stepped
    exact work_lt_of_taken _ _ (show 0 < 8 + 1 by decide)
  · cases stepped
  · exact work_lt_of_taken_unless stepped (by decide)
  · cases stepped
    exact work_lt_of_kept _ (show 0 < 1 by decide)
  · exact work_lt_of_taken_unless stepped (by decide)
  · cases stepped
    exact work_lt_of_taken _ _ (show 0 < 8 + 1 by decide)
  · cases stepped
  · exact work_lt_of_taken_unless stepped (by decide)
  · cases stepped
    exact work_lt_of_kept _ (show 1 < 2 by decide)
  · exact work_lt_of_read_flow_item stepped
  · exact Nat.lt_trans (work_lt_of_read_flow_item stepped) (work_lt_of_taken _ _ (by decide))
  · cases stepped
    exact work_lt_of_taken _ _ (show 0 < 8 + 1 by decide)
  · cases stepped
  · cases stepped
    exact work_lt_of_taken _ _ (show 0 < 8 + 3 by decide)
  · cases stepped
    exact work_lt_of_taken _ _ (show 0 < 8 + 3 by decide)
  · cases stepped
    exact work_lt_of_taken _ _ (show 0 < 8 + 3 by decide)
  · cases stepped
    exact work_lt_of_kept _ (show 2 < 3 by decide)
  · exact work_lt_of_taken_unless stepped (by decide)
  · cases stepped
    exact work_lt_of_kept _ (show 0 < 1 by decide)
  · cases stepped
    exact work_lt_of_kept _ (show 0 < 1 by decide)
  · exact work_lt_of_read_flow_entry stepped
  · exact Nat.lt_trans (work_lt_of_read_flow_entry stepped) (work_lt_of_taken _ _ (by decide))
  · cases stepped
    exact work_lt_of_taken _ _ (show 0 < 8 + 1 by decide)
  · cases stepped
  · exact work_lt_of_taken_unless stepped (by decide)
  · cases stepped
    exact work_lt_of_kept _ (show 0 < 1 by decide)
  · cases stepped
    exact work_lt_of_kept _ (show 0 < 1 by decide)

end ManifestLint.Yaml
