import ManifestLint.Proofs.Yaml.Lines
import ManifestLint.Yaml.Document

/-!
From tokens to a document. The goals of the grammar make of the tokens of a value its events, and
these build its node; a text of lines is a sound document whose root is the mapping of its keys and
values.
-/

namespace ManifestLint.Yaml

section
variable {handles : Handles}

/-- Goals make some events of the tokens before a rest, where other goals are left. -/
def Makes (handles : Handles) (goals : List Goal) (tokens : List Token) (events : List Event)
    (later : List Goal) (rest : List Token) : Prop :=
  pursue handles goals tokens =
    (events ++ (pursue handles later rest).1, (pursue handles later rest).2)

theorem Makes.trans {goals later last : List Goal} {tokens rest final : List Token}
    {events others : List Event} (first : Makes handles goals tokens events later rest)
    (second : Makes handles later rest others last final) :
    Makes handles goals tokens (events ++ others) last final := by
  rw [Makes] at first second ⊢
  rw [first, second, List.append_assoc]

theorem makes_of_step {goal : Goal} {tokens rest : List Token} {event : Option Event}
    {later : List Goal} (stepped : goal.step handles tokens = some ⟨event, later, rest⟩)
    (goals : List Goal) :
    Makes handles (goal :: goals) tokens event.toList (later ++ goals) rest := by
  rw [Makes, pursue]
  split
  · next stopped =>
    rw [stepped] at stopped
    cases stopped
  · next went =>
    rw [stepped] at went
    cases went
    rfl

def Token.startsValue : Token → Bool
  | .scalar _ _ => true
  | .flowSequenceStart => true
  | .flowMappingStart => true
  | _ => false

theorem Flow.tokens_eq_cons (flow : Flow) :
    ∃ token rest, flow.tokens = token :: rest ∧ token.startsValue = true := by
  cases flow with
  | scalar spelling => exact ⟨_, _, rfl, rfl⟩
  | sequence items => exact ⟨_, _, rfl, rfl⟩
  | mapping entries => exact ⟨_, _, rfl, rfl⟩

theorem node_unless_value {stops : List Token} (other : ∀ stop ∈ stops, stop.startsValue = false)
    (node : Goal) (goals : List Goal) {token : Token} (starts : token.startsValue = true)
    (rest : List Token) :
    nodeUnless stops node goals (token :: rest) = some ⟨none, node :: goals, token :: rest⟩ := by
  have outside : ¬ stops.contains token = true := by
    rw [List.contains_iff_mem]
    intro member
    rw [other token member] at starts
    cases starts
  rw [nodeUnless, if_neg outside]

theorem node_unless_flow {stops : List Token} (other : ∀ stop ∈ stops, stop.startsValue = false)
    (node : Goal) (goals : List Goal) (flow : Flow) (rest : List Token) :
    nodeUnless stops node goals (flow.tokens ++ rest) =
      some ⟨none, node :: goals, flow.tokens ++ rest⟩ := by
  obtain ⟨token, others, same, starts⟩ := flow.tokens_eq_cons
  rw [same]
  exact node_unless_value other node goals starts _

theorem read_flow_item_flow (flow : Flow) (rest : List Token) :
    readFlowItem (flow.tokens ++ rest) =
      some ⟨none, [.node false false, .flowItems false], flow.tokens ++ rest⟩ := by
  cases flow with
  | scalar spelling => rfl
  | sequence items => rfl
  | mapping entries => rfl

section
variable (handles)

theorem step_flow_items (first : Bool) (flow : Flow) (rest : List Token) :
    (Goal.flowItems first).step handles (Flow.separatorTokens first ++ (flow.tokens ++ rest)) =
      some ⟨none, [.node false false, .flowItems false], flow.tokens ++ rest⟩ := by
  have item := read_flow_item_flow flow rest
  obtain ⟨token, others, same, starts⟩ := flow.tokens_eq_cons
  rw [same] at item ⊢
  cases first with
  | true => exact item
  | false => exact item

theorem step_flow_items_end (first : Bool) (rest : List Token) :
    (Goal.flowItems first).step handles (.flowSequenceEnd :: rest) =
      some ⟨some .sequenceEnd, [], rest⟩ := by
  cases first with
  | true => rfl
  | false => rfl

theorem read_flow_entry_key (spelling : Spelling) (rest : List Token) :
    readFlowEntry (.key :: spelling.token :: rest) =
      some ⟨none, [.node false false, .flowValue, .flowKeys false], spelling.token :: rest⟩ := by
  rw [readFlowEntry]
  apply node_unless_value
  · decide
  · rfl

theorem step_flow_keys (first : Bool) (spelling : Spelling) (rest : List Token) :
    (Goal.flowKeys first).step handles
      (Flow.separatorTokens first ++ (.key :: spelling.token :: rest)) =
        some ⟨none, [.node false false, .flowValue, .flowKeys false], spelling.token :: rest⟩ := by
  cases first with
  | true => exact read_flow_entry_key spelling rest
  | false => exact read_flow_entry_key spelling rest

theorem step_flow_keys_end (first : Bool) (rest : List Token) :
    (Goal.flowKeys first).step handles (.flowMappingEnd :: rest) =
      some ⟨some .mappingEnd, [], rest⟩ := by
  cases first with
  | true => rfl
  | false => rfl

theorem step_flow_value (flow : Flow) (rest : List Token) :
    Goal.flowValue.step handles (.value :: (flow.tokens ++ rest)) =
      some ⟨none, [.node false false], flow.tokens ++ rest⟩ := by
  change nodeUnless [.flowEntry, .flowMappingEnd] (.node false false) [] (flow.tokens ++ rest) = _
  apply node_unless_flow
  decide

variable (block indentless : Bool)

theorem step_scalar (spelling : Spelling) (rest : List Token) :
    (Goal.node block indentless).step handles (spelling.token :: rest) =
      some ⟨some spelling.event, [], rest⟩ := rfl

theorem step_sequence (rest : List Token) :
    (Goal.node block indentless).step handles (.flowSequenceStart :: rest) =
      some ⟨some (.sequenceStart .absent), [.flowItems true], rest⟩ := rfl

theorem step_mapping (rest : List Token) :
    (Goal.node block indentless).step handles (.flowMappingStart :: rest) =
      some ⟨some (.mappingStart .absent), [.flowKeys true], rest⟩ := rfl

theorem step_block_mapping (rest : List Token) :
    (Goal.node true indentless).step handles (.blockMappingStart :: rest) =
      some ⟨some (.mappingStart .absent), [.mappingKeys], rest⟩ := rfl

theorem step_mapping_keys (spelling : Spelling) (rest : List Token) :
    Goal.mappingKeys.step handles (.key :: spelling.token :: rest) =
      some ⟨none, [.node true true, .mappingValue], spelling.token :: rest⟩ := by
  change nodeUnless [.key, .value, .blockEnd] (.node true true) [.mappingValue]
    (spelling.token :: rest) = _
  apply node_unless_value
  · decide
  · rfl

theorem step_mapping_keys_end (rest : List Token) :
    Goal.mappingKeys.step handles (.blockEnd :: rest) = some ⟨some .mappingEnd, [], rest⟩ := rfl

theorem step_mapping_value (flow : Flow) (rest : List Token) :
    Goal.mappingValue.step handles (.value :: (flow.tokens ++ rest)) =
      some ⟨none, [.node true true, .mappingKeys], flow.tokens ++ rest⟩ := by
  change nodeUnless [.key, .value, .blockEnd] (.node true true) [.mappingKeys]
    (flow.tokens ++ rest) = _
  apply node_unless_flow
  decide

end

mutual

theorem makes_flow :
    ∀ (flow : Flow) (block indentless : Bool) (goals : List Goal) (rest : List Token),
    Makes handles (.node block indentless :: goals) (flow.tokens ++ rest) flow.events goals rest
  | .scalar spelling, block, indentless, goals, rest =>
      makes_of_step (step_scalar handles block indentless spelling rest) goals
  | .sequence items, block, indentless, goals, rest =>
      (makes_of_step (step_sequence handles block indentless _) goals).trans
        (makes_items items true goals rest)
  | .mapping entries, block, indentless, goals, rest =>
      (makes_of_step (step_mapping handles block indentless _) goals).trans
        (makes_entries entries true goals rest)

theorem makes_items : ∀ (items : List Flow) (first : Bool) (goals : List Goal) (rest : List Token),
    Makes handles (.flowItems first :: goals) (Flow.tokensOfItems first items ++ rest)
      (Flow.eventsOfItems items ++ [.sequenceEnd]) goals rest
  | [], first, goals, rest => makes_of_step (step_flow_items_end handles first rest) goals
  | item :: items, first, goals, rest => by
      have started := makes_of_step
        (step_flow_items handles first item (Flow.tokensOfItems false items ++ rest)) goals
      have one := makes_flow item false false (.flowItems false :: goals)
        (Flow.tokensOfItems false items ++ rest)
      have others := makes_items items false goals rest
      have whole := started.trans (one.trans others)
      rw [Flow.tokensOfItems, Flow.eventsOfItems, List.append_assoc, List.append_assoc,
        List.append_assoc]
      exact whole

theorem makes_entries : ∀ (entries : List (Key × Flow)) (first : Bool) (goals : List Goal)
    (rest : List Token),
    Makes handles (.flowKeys first :: goals) (Flow.tokensOfEntries first entries ++ rest)
      (Flow.eventsOfEntries entries ++ [.mappingEnd]) goals rest
  | [], first, goals, rest => makes_of_step (step_flow_keys_end handles first rest) goals
  | (key, value) :: entries, first, goals, rest => by
      have started := makes_of_step (step_flow_keys handles first key.spelling
        (.value :: (value.tokens ++ (Flow.tokensOfEntries false entries ++ rest)))) goals
      have keyed := makes_of_step (step_scalar handles false false key.spelling
        (.value :: (value.tokens ++ (Flow.tokensOfEntries false entries ++ rest))))
        (.flowValue :: .flowKeys false :: goals)
      have announced := makes_of_step (step_flow_value handles value
        (Flow.tokensOfEntries false entries ++ rest)) (.flowKeys false :: goals)
      have one := makes_flow value false false (.flowKeys false :: goals)
        (Flow.tokensOfEntries false entries ++ rest)
      have others := makes_entries entries false goals rest
      have whole := started.trans (keyed.trans (announced.trans (one.trans others)))
      rw [Flow.tokensOfEntries, Flow.eventsOfEntries]
      simp only [List.append_assoc, List.cons_append]
      simp only [List.cons_append, List.nil_append, Option.toList] at whole
      exact whole

end

theorem makes_lines (entries : List (Key × Flow)) (goals : List Goal) (rest : List Token) :
    Makes handles (.mappingKeys :: goals) (entries.flatMap Flow.tokensOfLine ++ .blockEnd :: rest)
      (Flow.eventsOfEntries entries ++ [.mappingEnd]) goals rest := by
  induction entries with
  | nil => exact makes_of_step (step_mapping_keys_end handles rest) goals
  | cons entry entries induction =>
      obtain ⟨key, value⟩ := entry
      have started := makes_of_step (step_mapping_keys handles key.spelling
        (.value :: (value.tokens ++ (entries.flatMap Flow.tokensOfLine ++ .blockEnd :: rest))))
        goals
      have keyed := makes_of_step (step_scalar handles true true key.spelling
        (.value :: (value.tokens ++ (entries.flatMap Flow.tokensOfLine ++ .blockEnd :: rest))))
        (.mappingValue :: goals)
      have announced := makes_of_step (step_mapping_value handles value
        (entries.flatMap Flow.tokensOfLine ++ .blockEnd :: rest)) goals
      have one : Makes handles _ _ _ _ _ := makes_flow value true true (.mappingKeys :: goals)
        (entries.flatMap Flow.tokensOfLine ++ .blockEnd :: rest)
      have whole := started.trans (keyed.trans (announced.trans (one.trans induction)))
      rw [List.flatMap_cons, Flow.tokensOfLine, Flow.eventsOfEntries]
      simp only [List.append_assoc, List.cons_append]
      simp only [List.cons_append, List.nil_append, Option.toList] at whole
      exact whole

end

namespace Flow

def eventsOfLines (entries : List (Key × Flow)) : List Event :=
  .mappingStart .absent :: (eventsOfEntries entries ++ [.mappingEnd])

theorem read_document_lines (entries : List (Key × Flow)) :
    readDocument (tokensOfLines entries) = (eventsOfLines entries, some [.streamEnd]) := by
  have started := makes_of_step (step_block_mapping Handles.standard false
    (entries.flatMap tokensOfLine ++ [.blockEnd, .streamEnd])) []
  have whole := started.trans (makes_lines entries [] [.streamEnd])
  rw [Makes, pursue, List.append_nil] at whole
  exact whole

theorem event_stream_lines (entries : List (Key × Flow)) :
    EventStream.ofTokens (tokensOfLines entries) = ⟨eventsOfLines entries, true⟩ := by
  have several : tokensOfLines entries ≠ [.streamEnd] := by
    intro same
    cases same
  rw [EventStream.ofTokens, if_neg several, read_document_lines]
  rfl

end Flow

namespace Node

section
variable (anchors : Anchors) (frame inner : Frame) (frames : List Frame) (rest : List Event)

theorem grow_scalar (spelling : Spelling) :
    (grow anchors (frame :: frames) (spelling.event :: rest)).1 =
      (grow anchors (frame.add spelling.node :: frames) rest).1 := rfl

theorem grow_sequence_start :
    (grow anchors frames (.sequenceStart .absent :: rest)).1 =
      (grow anchors (.sequence ⟨none, none⟩ [] :: frames) rest).1 := rfl

theorem grow_mapping_start :
    (grow anchors frames (.mappingStart .absent :: rest)).1 =
      (grow anchors (.mapping ⟨none, none⟩ [] none :: frames) rest).1 := rfl

theorem grow_sequence_end :
    (grow anchors (inner :: frame :: frames) (.sequenceEnd :: rest)).1 =
      (grow anchors (frame.add (inner.close true) :: frames) rest).1 := rfl

theorem grow_mapping_end :
    (grow anchors (inner :: frame :: frames) (.mappingEnd :: rest)).1 =
      (grow anchors (frame.add (inner.close true) :: frames) rest).1 := rfl

end

mutual

theorem grow_flow : ∀ (flow : Flow) (anchors : Anchors) (frame : Frame) (frames : List Frame)
    (rest : List Event),
    (grow anchors (frame :: frames) (flow.events ++ rest)).1 =
      (grow anchors (frame.add flow.node :: frames) rest).1
  | .scalar spelling, anchors, frame, frames, rest => grow_scalar anchors frame frames rest spelling
  | .sequence items, anchors, frame, frames, rest => by
      rw [Flow.events, List.cons_append, List.append_assoc, grow_sequence_start, grow_items,
        List.singleton_append, grow_sequence_end, List.append_nil, Frame.close,
        List.reverse_reverse]
      rfl
  | .mapping entries, anchors, frame, frames, rest => by
      rw [Flow.events, List.cons_append, List.append_assoc, grow_mapping_start, grow_entries,
        List.singleton_append, grow_mapping_end, List.append_nil, Frame.close, List.reverse_reverse]
      rfl

theorem grow_items : ∀ (items : List Flow) (anchors : Anchors) (label : Label) (before : List Node)
    (frames : List Frame) (rest : List Event),
    (grow anchors (.sequence label before :: frames) (Flow.eventsOfItems items ++ rest)).1 =
      (grow anchors (.sequence label ((Flow.nodesOfItems items).reverse ++ before) :: frames)
        rest).1
  | [], _, _, _, _, _ => rfl
  | item :: items, anchors, label, before, frames, rest => by
      rw [Flow.eventsOfItems, List.append_assoc, grow_flow, Frame.add, grow_items,
        Flow.nodesOfItems, List.reverse_cons, List.append_assoc]
      rfl

theorem grow_entries : ∀ (entries : List (Key × Flow)) (anchors : Anchors) (label : Label)
    (before : List (Node × Node)) (frames : List Frame) (rest : List Event),
    (grow anchors (.mapping label before none :: frames) (Flow.eventsOfEntries entries ++ rest)).1 =
      (grow anchors (.mapping label ((Flow.nodesOfEntries entries).reverse ++ before)
        none :: frames)
        rest).1
  | [], _, _, _, _, _ => rfl
  | (key, value) :: entries, anchors, label, before, frames, rest => by
      rw [Flow.eventsOfEntries, List.cons_append, List.append_assoc, grow_scalar, Frame.add,
        grow_flow, Frame.add, grow_entries, Flow.nodesOfEntries, List.reverse_cons,
        List.append_assoc]
      rfl

end

end Node

theorem permitted_of_printable {char : Char} (printable : Printable char) :
    isPermitted char = true := by
  have low := decide_eq_true printable.1
  have high := decide_eq_true printable.2
  rw [isPermitted]
  simp [low, high]

theorem normalise_printable {char : Char} (printable : Printable char) (rest : List Char) :
    normalise (char :: rest) = char :: normalise rest := by
  have noReturn : char ≠ '\r' := by
    rintro rfl
    revert printable
    decide
  have noNextLine : char ≠ '\u0085' := by
    rintro rfl
    revert printable
    decide
  rw [normalise]
  · intro _ same _
    exact noReturn same
  · exact noReturn
  · exact noNextLine

namespace Flow

theorem printable_separator (first : Bool) : ∀ char ∈ separator first, Printable char := by
  intro char member
  cases first with
  | true => cases member
  | false =>
      rcases List.mem_cons.1 member with rfl | blank
      · decide
      · exact printable_one (by decide) char blank

mutual

theorem printable_write : ∀ flow : Flow, ∀ char ∈ flow.write, Printable char
  | .scalar spelling => spelling.printable_write
  | .sequence items => by
      rw [write, List.forall_mem_cons]
      exact ⟨by decide, printable_write_items items true⟩
  | .mapping entries => by
      rw [write, List.forall_mem_cons]
      exact ⟨by decide, printable_write_entries entries true⟩

theorem printable_write_items : ∀ (items : List Flow) (first : Bool),
    ∀ char ∈ writeItems first items, Printable char
  | [], _ => printable_one (by decide)
  | item :: items, first => by
      rw [writeItems, List.forall_mem_append, List.forall_mem_append]
      exact ⟨printable_separator first, printable_write item, printable_write_items items false⟩

theorem printable_write_entries : ∀ (entries : List (Key × Flow)) (first : Bool),
    ∀ char ∈ writeEntries first entries, Printable char
  | [], _ => printable_one (by decide)
  | (key, value) :: entries, first => by
      rw [writeEntries, List.forall_mem_append, List.forall_mem_append, List.forall_mem_cons,
        List.forall_mem_cons, List.forall_mem_append]
      exact ⟨printable_separator first, key.spelling.printable_write, by decide, by decide,
        printable_write value, printable_write_entries entries false⟩

end

def Clean (text : List Char) : Prop := ∀ char ∈ text, Printable char ∨ char = '\n'

theorem clean_write_lines (entries : List (Key × Flow)) : Clean (writeLines entries) := by
  intro char member
  obtain ⟨entry, _, inside⟩ := List.mem_flatMap.1 member
  rw [writeLine, List.mem_append, List.mem_cons, List.mem_cons, List.mem_append,
    List.mem_singleton] at inside
  rcases inside with key | rfl | rfl | value | line
  · exact .inl (entry.1.spelling.printable_write char key)
  · exact .inl (by decide)
  · exact .inl (by decide)
  · exact .inl (entry.2.printable_write char value)
  · exact .inr line

theorem Clean.permitted {text : List Char} (clean : Clean text) : text.all isPermitted = true := by
  rw [List.all_eq_true]
  intro char member
  rcases clean char member with printable | rfl
  · exact permitted_of_printable printable
  · decide

theorem Clean.normalise {text : List Char} (clean : Clean text) : normalise text = text := by
  induction text with
  | nil => rfl
  | cons char text induction =>
      rw [Clean, List.forall_mem_cons] at clean
      have others := induction clean.2
      rcases clean.1 with printable | rfl
      · rw [normalise_printable printable, others]
      · rw [Yaml.normalise, others]
        all_goals simp

theorem root_of_lines (entries : List (Key × Flow)) :
    (Node.grow .empty [] (eventsOfLines entries)).1 =
      .mapping ⟨none, none⟩ (nodesOfEntries entries) true := by
  have closed (frame : Node.Frame) :
      (Node.grow .empty [frame] [.mappingEnd]).1 = frame.close true := rfl
  rw [eventsOfLines, Node.grow_mapping_start, Node.grow_entries, closed, List.append_nil,
    Node.Frame.close, List.reverse_reverse]

/-- A text of lines is a sound document, the mapping of what the lines hold. -/
theorem document_of_lines (entry : Key × Flow) (entries : List (Key × Flow))
    (ends : ∀ line ∈ entry :: entries, line.2.EndsItself) :
    ∃ count, Document.ofText (String.ofList (writeLines (entry :: entries))) =
      ⟨.mapping ⟨none, none⟩ (nodesOfEntries (entry :: entries)) true, count, true⟩ := by
  have clean := clean_write_lines (entry :: entries)
  have root := root_of_lines (entry :: entries)
  refine ⟨(Node.grow .empty [] (eventsOfLines (entry :: entries))).2, ?_⟩
  rw [Document.ofText, String.toList_ofList, Supply.of_permitted clean.permitted, clean.normalise,
    tokens_write_lines entry entries ends, event_stream_lines, ← root]
  rfl

end Flow

end ManifestLint.Yaml
