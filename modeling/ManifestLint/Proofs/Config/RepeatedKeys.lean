import ManifestLint.Config.Document
import ManifestLint.Proofs.Config.Differing
import ManifestLint.Proofs.Config.PaddedSettings
import ManifestLint.Proofs.Yaml.BlockBuilding

/-!
Keys that are given twice. A config with a key twice that its mapping knows is refused, whatever the
values are, and a key that its mapping does not know may be given any number of times.
-/

namespace ManifestLint

open Yaml

def HasText (node : Node) (text : String) : Prop := ∃ label style, node = .scalar label style text

/-- A mapping with two entries of a name, without the one, and without the other. -/
def LacksEither (name : String) (_ : Role) (whole first second : Node) : Prop :=
  ∃ label before one between other after closed, HasText one.1 name ∧ HasText other.1 name ∧
    whole = .mapping label (before ++ one :: between ++ other :: after) closed ∧
    first = .mapping label (before ++ between ++ other :: after) closed ∧
    second = .mapping label (before ++ one :: between ++ after) closed

/-- The same where the two entries hold neither anchors nor aliases. -/
def LacksEitherBare (name : String) (_ : Role) (whole first second : Node) : Prop :=
  ∃ label before one between other after closed, HasText one.1 name ∧ HasText other.1 name ∧
    (∀ entry ∈ [one, other], entry.1.IsBare ∧ entry.2.IsBare) ∧
    whole = .mapping label (before ++ one :: between ++ other :: after) closed ∧
    first = .mapping label (before ++ between ++ other :: after) closed ∧
    second = .mapping label (before ++ one :: between ++ after) closed

/-- A tree with two entries of a name in some mapping, without the one, and without the other. If it
has aliases, the two entries hold neither aliases nor anchors. -/
def Repeats (name : String) (whole first second : Node) : Prop :=
  whole.isAliasFree = true ∧
      Differ (LacksEither name) .settings whole.unanchored first.unanchored second.unanchored ∨
    Differ (LacksEitherBare name) .settings whole first second

/-- A mapping with one of its entries again, at any place in it, where the mapping does not know the
key. -/
def HasAgain (root : Node) (role : Role) (whole first second : Node) : Prop :=
  first = second ∧ ∃ label before entry after closed name, entry ∈ before ++ after ∧
    IsTextKey entry.1 name ∧
    ¬ role.Knows root (before ++ after) name ∧
    whole = .mapping label (before ++ entry :: after) closed ∧
    second = .mapping label (before ++ after) closed

section
variable {root : Node} {role : Role} {whole first second : Node} {name : String}

theorem text_key_of_name {key : Node} (known : name ∈ Role.allNames) (text : HasText key name) :
    IsTextKey key name := by
  obtain ⟨label, style, rfl⟩ := text
  exact ⟨label, style, rfl, fun _ => Role.atom_of_name known⟩

theorem spells_of_text {key : Node} (text : HasText key name) : Spells root key name := by
  obtain ⟨label, style, rfl⟩ := text
  rfl

theorem lacks_bare_of_bare (lacks : LacksEither name role whole first second)
    (bare : whole.IsBare) : LacksEitherBare name role whole first second := by
  obtain ⟨label, before, one, between, other, after, closed, oneText, otherText, rfl, rfl, rfl⟩ :=
    lacks
  refine ⟨label, before, one, between, other, after, closed, oneText, otherText,
    fun entry member => bare.of_entries entry ?_, rfl, rfl, rfl⟩
  simp only [List.mem_cons, List.mem_append, List.not_mem_nil, or_false] at member ⊢
  rcases member with rfl | rfl
  · exact .inl (.inr (.inl rfl))
  · exact .inr (.inl rfl)

theorem matched_of_lacks (known : name ∈ Role.allNames)
    (lacks : LacksEitherBare name role whole first second) :
    Matched root [name] role whole first second := by
  obtain ⟨label, before, one, between, other, after, closed, oneText, otherText, bare, rfl, rfl,
    rfl⟩ := lacks
  rw [List.forall_mem_cons, List.forall_mem_singleton] at bare
  obtain ⟨⟨oneKey, oneValue⟩, otherKey, otherValue⟩ := bare
  have early : RowsAlike root [name] role
      (before.map Row.same ++ ([Row.alone one] ++ between.map Row.same)) :=
    (RowsAlike.refl before).of_append
      ((RowsAlike.of_alone ⟨oneKey.2, oneValue.2⟩).of_append (.refl between))
  have earlier : ∃ entry ∈ (before.map Row.same ++
      ([Row.alone one] ++ between.map Row.same)).map Row.whole, Spells root entry.1 name :=
    ⟨one, by simp [Row.whole], spells_of_text oneText⟩
  have padded : Padded root [name] role
      (.mapping label (before ++ one :: between ++ other :: after) closed)
      (.mapping label (before ++ between ++ other :: after) closed)
      (.mapping label (before ++ one :: between ++ after) closed) :=
    padded_of_spare [other] (early.of_append (.refl after))
      (List.mem_append_right _ (List.mem_append_left _ List.mem_cons_self)) otherValue.2
      (text_key_of_name known otherText) (.inl ⟨List.mem_singleton_self name, earlier⟩)
      (by simp [Row.whole]) (by simp [Row.first, List.filterMap_cons])
      (by simp [Row.second])
  refine ⟨padded, fun number => ?_, ?_⟩
  · simp only [Node.owner?, Node.owner_inside_append, Node.ownerInside?, oneKey.owner,
      oneValue.owner, otherKey.owner, otherValue.owner, Option.or_none]
    exact .or (.refl _) (.of_itself padded _)
  · simp only [Node.eventCount, Node.entries_event_count_append, Node.entriesEventCount]
    omega

theorem spells_of_alias_free {node : Node} {text : String} (free : node.isAliasFree = true)
    (spells : Spells root node text) (other : Node) : Spells other node text := by
  match node, spells with
  | .alias number, _ => cases free
  | .scalar label style written, spells => exact spells

theorem knows_of_alias_free {entries others : List (Node × Node)}
    (free : ∀ entry ∈ entries, entry.1.isAliasFree = true ∧ entry.2.isAliasFree = true)
    (held : entries ⊆ others) (knows : role.Knows root entries name) (other : Node) :
    role.Knows other others name := by
  rcases knows with always | ⟨condition, excuse, entry, member, typed, kind⟩
  · exact .inl always
  · obtain ⟨keyFree, valueFree⟩ := free entry member
    exact .inr ⟨condition, excuse, entry, held member, spells_of_alias_free keyFree typed other,
      spells_of_alias_free valueFree kind other⟩

theorem matched_of_again {tree : Node} (again : HasAgain tree role whole first second)
    (bare : whole.IsBare) : Matched root [] role whole first second := by
  obtain ⟨rfl, label, before, entry, after, closed, name, member, text, unknown, rfl, rfl⟩ := again
  have parts := bare.of_entries
  obtain ⟨keyBare, valueBare⟩ := parts entry (List.mem_append_right _ List.mem_cons_self)
  have unknownHere :
      ¬ role.Knows root (before ++ entry :: after) name := fun knows =>
    unknown (knows_of_alias_free (fun part held => ⟨(parts part held).1.2, (parts part held).2.2⟩)
      (by grind) knows tree)
  have padded : Padded root [] role (.mapping label (before ++ entry :: after) closed)
      (.mapping label (before ++ after) closed) (.mapping label (before ++ after) closed) :=
    padded_of_spare [] ((RowsAlike.refl before).of_append (.refl after)) (by simpa using member)
      valueBare.2 text (.inr ⟨rfl, unknownHere⟩) (by simp) (by simp) (by simp)
  refine ⟨padded, fun number => ?_, ?_⟩
  · simp only [Node.owner?, Node.owner_inside_append, Node.ownerInside?, keyBare.owner,
      valueBare.owner, Option.or_none]
    exact .or (.refl _) (.of_itself padded _)
  · simp only [Node.eventCount, Node.entries_event_count_append, Node.entriesEventCount]
    omega

theorem matched_of_differ_bare (known : name ∈ Role.allNames)
    (differ : Differ (LacksEitherBare name) role whole first second) :
    Matched root [name] role whole first second :=
  matched_of_differ (differ.imp fun _ _ _ _ lacks => matched_of_lacks known lacks)

/-- Entries that are left out bring no alias. -/
theorem alias_free_of_lacks (differ : Differ (LacksEither name) role whole first second)
    (free : whole.isAliasFree = true) :
    first.isAliasFree = true ∧ second.isAliasFree = true := by
  induction differ with
  | here lacks =>
      obtain ⟨label, before, one, between, other, after, closed, _, _, rfl, rfl, rfl⟩ := lacks
      grind [Node.isAliasFree]
  | value inside induction => grind [Node.isAliasFree]
  | key inside induction => grind [Node.isAliasFree]
  | item inside induction => grind [Node.isAliasFree]

/-- An entry that is there again brings no alias. -/
theorem alias_free_of_again {tree : Node} (differ : Differ (HasAgain tree) role whole first second)
    (free : second.isAliasFree = true) : whole.isAliasFree = true := by
  induction differ with
  | here again =>
      obtain ⟨_, label, before, entry, after, closed, name, member, _, _, rfl, rfl⟩ := again
      grind [Node.isAliasFree]
  | value inside induction => grind [Node.isAliasFree]
  | key inside induction => grind [Node.isAliasFree]
  | item inside induction => grind [Node.isAliasFree]

end

namespace Config

/-- A document that has settings, which are well-formed and have the given tree. -/
def HasSettings (content : String) (root : Node) : Prop :=
  ∃ settings count, Frontmatter.ofDocument content = some settings ∧ ¬ Text.Blank settings = true ∧
    Document.ofText settings = ⟨root, count, true⟩

section
variable {content : String} {root : Node}

theorem layer_of_settings (holds : HasSettings content root) :
    Layer.ofDocument content =
      ((((LayerEntry.read .root root).run root).run (aliasesPerEvent * root.eventCount)).map
        Prod.fst).mapError .unreadable := by
  obtain ⟨settings, count, found, shown, document⟩ := holds
  have value (run : Except ReadFault (Layer × Nat)) :
      (run >>= fun read => if true = true then pure read.1 else throw .malformed) =
        run.map Prod.fst := by
    cases run <;> rfl
  have counted := Document.event_count_of_root settings
  rw [document] at counted
  rw [Layer.ofDocument, found]
  dsimp only at counted ⊢
  rw [if_neg shown, readDocumentAs, document, counted]
  exact congrArg (Except.mapError _) (value _)

theorem run_of_accepted (holds : HasSettings content root) {config : Config}
    (accepted : ofDocument content = .ok config) :
    ∃ layer after, ((LayerEntry.read .root root).run root).run
        (aliasesPerEvent * root.eventCount) = .ok (layer, after) ∧
      Layer.ofDocument content = .ok layer := by
  rw [ofDocument, bind_eq_ok_iff] at accepted
  obtain ⟨layer, read, _⟩ := accepted
  have run := read
  rw [map_error_eq_ok_iff] at run read
  rw [layer_of_settings holds, map_error_eq_ok_iff, map_eq_ok_iff] at run
  obtain ⟨⟨value, after⟩, run, rfl⟩ := run
  exact ⟨value, after, run, read⟩

theorem refused_of_run (holds : HasSettings content root) {fault : ReadFault}
    (run : ((LayerEntry.read .root root).run root).run (aliasesPerEvent * root.eventCount) =
      .error fault) :
    ofDocument content = .error (.document (.unreadable fault)) := by
  rw [ofDocument, layer_of_settings holds, run]
  rfl

end

section
variable {whole first second : Node} {name : String} {layer firstLayer : Layer} {after : Nat}

/-- Settings with a key twice are refused for it if the settings with one of the two entries are
read, each time another one. -/
theorem repeated_of_matched (matched : Matched whole [name] .settings whole first second)
    (firstGives : Gives first (LayerEntry.read .root first) firstLayer)
    (secondRun : ((LayerEntry.read .root second).run second).run
      (aliasesPerEvent * second.eventCount) = .ok (layer, after))
    (refused : ∀ layer, ¬ Gives whole (LayerEntry.read .root whole) layer) :
    ∃ place, ((LayerEntry.read .root whole).run whole).run (aliasesPerEvent * whole.eventCount) =
      .error (.mistyped place (.repeatedField name)) := by
  have linked : Linked ⟨whole, first, second⟩ [name] :=
    linked_of_owners (List.cons_ne_nil _ _) matched.owners
  have enough : aliasesPerEvent * second.eventCount ≤ aliasesPerEvent * whole.eventCount :=
    Nat.mul_le_mul_left _ matched.count
  have keeps : KeepsTo ⟨whole, first, second⟩ [name] (· = ·) (LayerEntry.read .root whole)
      (LayerEntry.read .root first) (LayerEntry.read .root second) :=
    LayerEntry.keeps_to_layer matched.padded .root
  rcases keeps linked firstGives secondRun _ enough with
    ⟨result, rest, run, _⟩ | ⟨place, key, member, run⟩
  · exact absurd ⟨_, rest, run⟩ (refused result)
  · rw [List.mem_singleton.1 member] at run
    exact ⟨place, run⟩

theorem repeated_of_alias_free (known : name ∈ Role.allNames) (free : whole.isAliasFree = true)
    (differ : Differ (LacksEither name) .settings whole.unanchored first.unanchored
      second.unanchored)
    (firstGives : Gives first (LayerEntry.read .root first) firstLayer)
    (secondGives : Gives second (LayerEntry.read .root second) layer)
    (refused : ∀ layer, ¬ Gives whole (LayerEntry.read .root whole) layer) (left : Nat) :
    ∃ place, ((LayerEntry.read .root whole).run whole).run left =
      .error (.mistyped place (.repeatedField name)) := by
  have bare := Node.is_bare_unanchored free
  obtain ⟨firstFree, secondFree⟩ := alias_free_of_lacks differ bare.2
  rw [Node.is_alias_free_unanchored] at firstFree secondFree
  have plain := LayerEntry.reads_plain_layer free .root
  have firstPlain := LayerEntry.reads_plain_layer firstFree .root
  have secondPlain := LayerEntry.reads_plain_layer secondFree .root
  have bareDiffer : Differ (LacksEitherBare name) .settings whole.unanchored first.unanchored
      second.unanchored :=
    (differ.with_bare bare).imp fun _ _ _ _ ⟨lacks, bare⟩ => lacks_bare_of_bare lacks bare
  obtain ⟨place, run⟩ := repeated_of_matched (matched_of_differ_bare known bareDiffer)
    ⟨0, 0, firstPlain.run_of_gives firstGives _ 0⟩ (secondPlain.run_of_gives secondGives _ _)
    fun layer gives => refused layer ⟨0, 0, plain.symm.run_of_gives gives _ 0⟩
  exact ⟨place, plain.symm.run_of_error run whole left⟩

/-- Settings without aliases are read as before when an entry is there again that is passed over. -/
theorem run_of_again (free : second.isAliasFree = true)
    (differ : Differ (HasAgain second) .settings whole.unanchored second.unanchored
      second.unanchored)
    (gives : Gives second (LayerEntry.read .root second) layer) (left : Nat) :
    ((LayerEntry.read .root whole).run whole).run left = .ok (layer, left) := by
  have bare := Node.is_bare_unanchored free
  have wholeFree := alias_free_of_again differ bare.2
  rw [Node.is_alias_free_unanchored] at wholeFree
  have plain := LayerEntry.reads_plain_layer free .root
  have wholePlain := LayerEntry.reads_plain_layer wholeFree .root
  have matched : Matched whole.unanchored [] .settings whole.unanchored second.unanchored
      second.unanchored :=
    matched_of_differ ((differ.with_bare (Node.is_bare_unanchored wholeFree)).imp
      fun _ _ _ _ ⟨again, bare⟩ => matched_of_again again bare)
  have linked : Linked ⟨whole.unanchored, second.unanchored, second.unanchored⟩ [] :=
    linked_of_bare bare
  have read := plain.run_of_gives gives second.unanchored 0
  have keeps : KeepsTo ⟨whole.unanchored, second.unanchored, second.unanchored⟩ [] (· = ·)
      (LayerEntry.read .root whole.unanchored) (LayerEntry.read .root second.unanchored)
      (LayerEntry.read .root second.unanchored) :=
    LayerEntry.keeps_to_layer matched.padded .root
  rcases keeps linked ⟨0, 0, read⟩ read 0 (Nat.le_refl 0) with
    ⟨result, rest, run, _, rfl⟩ | ⟨place, key, member, _⟩
  · exact wholePlain.symm.run_of_gives ⟨0, rest, run⟩ whole left
  · cases member

end

/-- A key that is given twice is never passed over where its mapping knows it. With aliases some
other fault may come first; without them, and without aliases and anchors in the two entries, it is
the key that is told. A key that its mapping does not know is passed over each time. -/
theorem repeated_key_is_never_dropped :
    (∀ (content : String) (root : Node) (name : String), HasSettings content root →
      Role.RepeatsKnown root name →
      (∀ config, ofDocument content ≠ .ok config) ∧
      ∀ (first second : String) (firstRoot secondRoot : Node),
        HasSettings first firstRoot → HasSettings second secondRoot →
        Repeats name root firstRoot secondRoot →
        (∃ config, ofDocument first = .ok config) → (∃ config, ofDocument second = .ok config) →
        ∃ place, ofDocument content =
          .error (.document (.unreadable (.mistyped place (.repeatedField name))))) ∧
    ∀ (content again : String) (root other : Node) (config : Config), HasSettings content root →
      HasSettings again other → root.isAliasFree = true →
      Differ (HasAgain root) .settings other.unanchored root.unanchored root.unanchored →
      ofDocument content = .ok config → ofDocument again = .ok config := by
  refine ⟨?_, ?_⟩
  · intro content root name holds repeats
    have refused (layer : Layer) : ¬ Gives root (LayerEntry.read .root root) layer :=
      Role.not_gives_layer_of_repeats repeats layer
    refine ⟨fun config accepted => ?_, ?_⟩
    · obtain ⟨layer, after, run, _⟩ := run_of_accepted holds accepted
      exact refused layer ⟨_, after, run⟩
    rintro first second firstRoot secondRoot firstHolds secondHolds differ ⟨_, firstAccepted⟩
      ⟨_, secondAccepted⟩
    obtain ⟨_, _, _, _, _, knows, _⟩ := repeats
    have known := Role.mem_all_names knows
    obtain ⟨firstLayer, _, firstRun, _⟩ := run_of_accepted firstHolds firstAccepted
    obtain ⟨secondLayer, _, secondRun, _⟩ := run_of_accepted secondHolds secondAccepted
    have told : ∃ place, ((LayerEntry.read .root root).run root).run
        (aliasesPerEvent * root.eventCount) = .error (.mistyped place (.repeatedField name)) := by
      rcases differ with ⟨free, differ⟩ | differ
      · exact repeated_of_alias_free known free differ ⟨_, _, firstRun⟩ ⟨_, _, secondRun⟩ refused _
      · exact repeated_of_matched (matched_of_differ_bare known differ) ⟨_, _, firstRun⟩ secondRun
          refused
    obtain ⟨place, run⟩ := told
    exact ⟨place, refused_of_run holds run⟩
  · intro content again root other config holds againHolds free differ accepted
    obtain ⟨layer, _, run, read⟩ := run_of_accepted holds accepted
    have againRun := run_of_again free differ ⟨_, _, run⟩ (aliasesPerEvent * other.eventCount)
    rw [ofDocument, layer_of_settings againHolds, againRun]
    rw [ofDocument, read] at accepted
    exact accepted

theorem has_settings_of_block (content settings : String)
    (found : Frontmatter.ofDocument content = some settings) (shown : ¬ Text.Blank settings = true)
    (step : Nat) (key : WordKey) (value : Block) (others : List (WordKey × Block))
    (written : settings.toList = (Block.mapping key value others).write step 0 ++ ['\n']) :
    HasSettings content (Block.mapping key value others).node := by
  obtain ⟨count, document⟩ := Block.document_of_mapping step key value others
  rw [← written, String.ofList_toList] at document
  exact ⟨settings, count, found, shown, document⟩

def outputKey : WordKey := .of "output"

def colourKey : WordKey := .of "color"

def shadeKey : WordKey := .of "shade"

def plainText (text : String) : Node := .scalar ⟨none, none⟩ .plain text

/-- Settings with these entries for the output and nothing else. -/
def outputSettings (entries : List (Node × Node)) : Node :=
  .mapping ⟨none, none⟩ [(plainText "output", .mapping ⟨none, none⟩ entries true)] true

def whiteEntry : Node × Node := (plainText "color", plainText "false")

def colourEntry : Node × Node := (plainText "color", plainText "true")

def shadeEntry : Node × Node := (plainText "shade", plainText "x")

theorem without_colour :
    HasSettings "---\noutput:\n color: false\n---\n" (outputSettings [whiteEntry]) :=
  has_settings_of_block _ "output:\n color: false\n" (by decide +kernel) (by decide +kernel) 0
    outputKey (.mapping colourKey (.scalar (.of "false")) []) [] (by decide +kernel)

theorem with_colour :
    HasSettings "---\noutput:\n color: true\n---\n" (outputSettings [colourEntry]) :=
  has_settings_of_block _ "output:\n color: true\n" (by decide +kernel) (by decide +kernel) 0
    outputKey (.mapping colourKey (.scalar (.of "true")) []) [] (by decide +kernel)

theorem with_two_colours : HasSettings "---\noutput:\n color: true\n color: false\n---\n"
    (outputSettings [colourEntry, whiteEntry]) :=
  has_settings_of_block _ "output:\n color: true\n color: false\n" (by decide +kernel)
    (by decide +kernel) 0
    outputKey (.mapping colourKey (.scalar (.of "true")) [(colourKey, .scalar (.of "false"))]) []
    (by decide +kernel)

theorem with_shade : HasSettings "---\noutput:\n shade: x\n---\n" (outputSettings [shadeEntry]) :=
  has_settings_of_block _ "output:\n shade: x\n" (by decide +kernel) (by decide +kernel) 0 outputKey
    (.mapping shadeKey (.scalar (.of "x")) []) [] (by decide +kernel)

theorem with_two_shades : HasSettings "---\noutput:\n shade: x\n shade: x\n---\n"
    (outputSettings [shadeEntry, shadeEntry]) :=
  has_settings_of_block _ "output:\n shade: x\n shade: x\n" (by decide +kernel) (by decide +kernel)
    0 outputKey
    (.mapping shadeKey (.scalar (.of "x")) [(shadeKey, .scalar (.of "x"))]) [] (by decide +kernel)

/-- Settings differ where their entries for the output do. -/
theorem output_differs {Change : Role → Node → Node → Node → Prop}
    {whole first second : List (Node × Node)}
    (change : Change .output (.mapping ⟨none, none⟩ whole true) (.mapping ⟨none, none⟩ first true)
      (.mapping ⟨none, none⟩ second true)) :
    Differ Change .settings (outputSettings whole) (outputSettings first) (outputSettings second) :=
  @Differ.value Change .settings ⟨none, none⟩ [] [] true (plainText "output") _ _ _ (.here change)

theorem two_colours_repeat :
    Role.RepeatsKnown (outputSettings [colourEntry, whiteEntry]) "color" := by
  have output : Role.Plays (outputSettings [colourEntry, whiteEntry]) .output
      (.mapping ⟨none, none⟩ [colourEntry, whiteEntry] true) :=
    @Role.Plays.value _ .settings ⟨none, none⟩ _ true (plainText "output", _) "output" .root
      List.mem_cons_self rfl
  exact ⟨.output, ⟨none, none⟩, [colourEntry, whiteEntry], true, output, .inl (by decide), _, _,
    .refl _, rfl, rfl⟩

theorem shade_is_unknown :
    ¬ Role.output.Knows (outputSettings [shadeEntry]) [shadeEntry] "shade" := by
  rintro (always | ⟨condition, _⟩)
  · exact absurd always (by decide)
  · cases condition

theorem shade_is_text_key : IsTextKey (plainText "shade") "shade" :=
  ⟨⟨none, none⟩, .plain, rfl, fun _ same => (Except.ok.inj same).symm.trans (by decide +kernel)⟩

/-- Settings that disable a rule twice, the second time by an alias, and give the colours. -/
def linkedSettings (colours : List String) : Node :=
  .mapping ⟨none, none⟩
    [(plainText "lint", .mapping ⟨none, none⟩ [(plainText "disable",
      .sequence ⟨none, none⟩ [.scalar ⟨some 0, none⟩ .plain "multi-stage-build", .alias 0]
        true)] true),
    (plainText "output", .mapping ⟨none, none⟩
      (colours.map fun colour => (plainText "color", plainText colour)) true)] true

def linkedText (colours : List String) : String :=
  "lint:\n disable: [&x multi-stage-build, *x]\noutput:\n" ++
    String.join (colours.map fun colour => " color: " ++ colour ++ "\n")

def linkedDocument (colours : List String) : String := "---\n" ++ linkedText colours ++ "---\n"

def linkedEvents (colours : List String) : List Event :=
  let plain := Event.scalar ⟨none, none⟩ .plain
  [.mappingStart ⟨none, none⟩, plain "lint", .mappingStart ⟨none, none⟩, plain "disable",
    .sequenceStart ⟨none, none⟩, .scalar ⟨some ['x'], none⟩ .plain "multi-stage-build",
    .alias ['x'], .sequenceEnd, .mappingEnd, plain "output", .mappingStart ⟨none, none⟩] ++
  colours.flatMap (fun colour => [plain "color", plain colour]) ++ [.mappingEnd, .mappingEnd]

theorem has_linked_settings {colours : List String}
    (found : Frontmatter.ofDocument (linkedDocument colours) = some (linkedText colours))
    (shown : ¬ Text.Blank (linkedText colours) = true)
    (stream : EventStream.ofTokens (tokens (.ofStream (linkedText colours).toList)
      (normalise (linkedText colours).toList)) = ⟨linkedEvents colours, true⟩)
    (grown : (Node.grow .empty [] (linkedEvents colours)).1 = linkedSettings colours) :
    HasSettings (linkedDocument colours) (linkedSettings colours) := by
  refine ⟨linkedText colours, (Node.grow .empty [] (linkedEvents colours)).2, found, shown, ?_⟩
  rw [Document.ofText, stream, ← grown]
  rfl

theorem linked_settings : HasSettings (linkedDocument ["true"]) (linkedSettings ["true"]) ∧
    HasSettings (linkedDocument ["false"]) (linkedSettings ["false"]) ∧
    HasSettings (linkedDocument ["true", "false"]) (linkedSettings ["true", "false"]) := by
  refine ⟨?_, ?_, ?_⟩ <;>
    exact has_linked_settings (by decide +kernel) (by decide +kernel) (by decide +kernel) rfl

theorem linked_colours_repeat : Role.RepeatsKnown (linkedSettings ["true", "false"]) "color" := by
  have output : Role.Plays (linkedSettings ["true", "false"]) .output
      (.mapping ⟨none, none⟩ [colourEntry, whiteEntry] true) :=
    @Role.Plays.value _ .settings ⟨none, none⟩ _ true (plainText "output", _) "output" .root
      (List.mem_cons_of_mem _ List.mem_cons_self) rfl
  exact ⟨.output, ⟨none, none⟩, [colourEntry, whiteEntry], true, output, .inl (by decide), _, _,
    .refl _, rfl, rfl⟩

theorem linked_colours_differ : Repeats "color" (linkedSettings ["true", "false"])
    (linkedSettings ["false"]) (linkedSettings ["true"]) := by
  have bare : ∀ entry ∈ [colourEntry, whiteEntry], entry.1.IsBare ∧ entry.2.IsBare := by
    rw [List.forall_mem_cons, List.forall_mem_singleton]
    exact ⟨⟨⟨rfl, rfl⟩, rfl, rfl⟩, ⟨rfl, rfl⟩, rfl, rfl⟩
  have lacks : LacksEitherBare "color" .output
      (.mapping ⟨none, none⟩ [colourEntry, whiteEntry] true)
      (.mapping ⟨none, none⟩ [whiteEntry] true) (.mapping ⟨none, none⟩ [colourEntry] true) :=
    ⟨⟨none, none⟩, [], _, [], _, [], true, ⟨_, _, rfl⟩, ⟨_, _, rfl⟩, bare, rfl, rfl, rfl⟩
  exact .inr (@Differ.value _ .settings ⟨none, none⟩ [(plainText "lint", _)] [] true
    (plainText "output") _ _ _ (.here lacks))

/-- A colour that is given twice is refused, and a shade that is given twice is as good as one. -/
theorem colour_twice_is_refused :
    ofDocument "---\noutput:\n color: false\n---\n" = .ok ⟨.empty, .text, false⟩ ∧
    ofDocument "---\noutput:\n color: true\n---\n" = .ok ⟨.empty, .text, true⟩ ∧
    (∃ place, ofDocument "---\noutput:\n color: true\n color: false\n---\n" =
      .error (.document (.unreadable (.mistyped place (.repeatedField "color"))))) ∧
    (∃ place, ofDocument (linkedDocument ["true", "false"]) =
      .error (.document (.unreadable (.mistyped place (.repeatedField "color"))))) ∧
    ofDocument "---\noutput:\n shade: x\n shade: x\n---\n" = .ok ⟨.empty, .text, true⟩ := by
  have white : ofDocument "---\noutput:\n color: false\n---\n" = .ok ⟨.empty, .text, false⟩ := by
    decide +kernel
  have coloured : ofDocument "---\noutput:\n color: true\n---\n" = .ok ⟨.empty, .text, true⟩ := by
    decide +kernel
  have shaded : ofDocument "---\noutput:\n shade: x\n---\n" = .ok ⟨.empty, .text, true⟩ := by
    decide +kernel
  obtain ⟨refused, kept⟩ := repeated_key_is_never_dropped
  refine ⟨white, coloured, ?_, ?_, ?_⟩
  · have lacks : Differ (LacksEither "color") .settings (outputSettings [colourEntry, whiteEntry])
        (outputSettings [whiteEntry]) (outputSettings [colourEntry]) :=
      output_differs ⟨⟨none, none⟩, [], _, [], _, [], true, ⟨_, _, rfl⟩, ⟨_, _, rfl⟩, rfl, rfl, rfl⟩
    exact (refused _ _ "color" with_two_colours two_colours_repeat).2 _ _ _ _ without_colour
      with_colour (.inl ⟨rfl, lacks⟩) ⟨_, white⟩ ⟨_, coloured⟩
  · obtain ⟨withColour, withoutColour, withBoth⟩ := linked_settings
    have bright : ofDocument (linkedDocument ["true"]) =
        .ok ⟨⟨["multi-stage-build", "multi-stage-build"], []⟩, .text, true⟩ := by
      decide +kernel
    have dark : ofDocument (linkedDocument ["false"]) =
        .ok ⟨⟨["multi-stage-build", "multi-stage-build"], []⟩, .text, false⟩ := by
      decide +kernel
    exact (refused _ _ "color" withBoth linked_colours_repeat).2 _ _ _ _ withoutColour withColour
      linked_colours_differ ⟨_, dark⟩ ⟨_, bright⟩
  · have again : Differ (HasAgain (outputSettings [shadeEntry])) .settings
        (outputSettings [shadeEntry, shadeEntry]) (outputSettings [shadeEntry])
          (outputSettings [shadeEntry]) :=
      output_differs ⟨rfl, ⟨none, none⟩, [shadeEntry], shadeEntry, [], true, "shade",
        List.mem_cons_self,
        shade_is_text_key, shade_is_unknown, rfl, rfl⟩
    exact kept _ _ _ _ _ with_shade with_two_shades rfl again shaded

/-- With aliases some other fault may come first: with three anchors of two names, the alias stands
for another node in the whole document than without one of the two messages. -/
theorem alias_hides_repeated_message :
    ofDocument
      ("---\nlint:\n  rules:\n  - name: &x a\n    message: &x b\n    when: [contains, *x]\n" ++
      "    message: &y 1\n---\n") = .error (.document (.unreadable (.mistyped
        ((Path.root.key "lint").key "rules" |>.item 0) (.wrongType (.integer 1) "a string")))) ∧
    ofDocument ("---\nlint:\n  rules:\n  - name: &x a\n    when: [contains, *x]\n" ++
      "    message: &y 1\n---\n") = .ok ⟨⟨[], [⟨"a", "1", .contains "a"⟩]⟩, .text, true⟩ ∧
    ofDocument
      ("---\nlint:\n  rules:\n  - name: &x a\n    message: &x b\n    when: [contains, *x]\n" ++
      "---\n") = .ok ⟨⟨[], [⟨"a", "b", .contains "b"⟩]⟩, .text, true⟩ := by
  refine ⟨?_, ?_, ?_⟩ <;> decide +kernel

end Config

end ManifestLint
