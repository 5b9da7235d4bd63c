import ManifestLint.Proofs.Yaml.BlockScanning
import ManifestLint.Proofs.Yaml.Building

/-!
From the tokens of a value in block style to its node. A text that is one mapping is a sound
document whose root is the mapping of its keys and values, every scalar as it is written.
-/

namespace ManifestLint.Yaml

namespace Block

section
variable {handles : Handles}

theorem tokens_eq_cons (block : Block) : ∃ token rest, block.tokens = token :: rest ∧
    token ∉ [Token.key, .value, .blockEntry, .blockEnd] := by
  cases block with
  | scalar bare => exact ⟨_, _, rfl, by simp⟩
  | sequence first others => exact ⟨_, _, rfl, by simp⟩
  | mapping key value others => exact ⟨_, _, rfl, by simp⟩

theorem node_unless_block {stops : List Token}
    (known : stops ⊆ [.key, .value, .blockEntry, .blockEnd]) (node : Goal) (goals : List Goal)
    (block : Block) (rest : List Token) :
    nodeUnless stops node goals (block.tokens ++ rest) =
      some ⟨none, node :: goals, block.tokens ++ rest⟩ := by
  obtain ⟨token, others, same, other⟩ := block.tokens_eq_cons
  have outside : ¬ stops.contains token = true := by
    rw [List.contains_iff_mem]
    exact fun member => other (known member)
  rw [same, List.cons_append, nodeUnless, if_neg outside]

/-- The goals of a node make its events of its tokens, whatever is left to do behind it. -/
def Builds (handles : Handles) (block : Block) : Prop :=
  ∀ (indentless : Bool) (goals : List Goal) (rest : List Token),
    Makes handles (.node true indentless :: goals) (block.tokens ++ rest) block.events goals rest

section
variable (handles)

theorem step_bare (block indentless : Bool) (text : String) (rest : List Token) :
    (Goal.node block indentless).step handles (.scalar .plain text :: rest) =
      some ⟨some (.scalar .absent .plain text), [], rest⟩ := rfl

theorem step_block_sequence (indentless : Bool) (rest : List Token) :
    (Goal.node true indentless).step handles (.blockSequenceStart :: rest) =
      some ⟨some (.sequenceStart .absent), [.sequenceItems], rest⟩ := rfl

theorem step_item (block : Block) (rest : List Token) :
    Goal.sequenceItems.step handles (.blockEntry :: (block.tokens ++ rest)) =
      some ⟨none, [.node true false, .sequenceItems], block.tokens ++ rest⟩ :=
  node_unless_block (by simp) _ _ block rest

theorem step_items_end (rest : List Token) :
    Goal.sequenceItems.step handles (.blockEnd :: rest) = some ⟨some .sequenceEnd, [], rest⟩ := rfl

theorem step_key (key : WordKey) (rest : List Token) :
    Goal.mappingKeys.step handles (.key :: .scalar .plain key.text :: rest) =
      some ⟨none, [.node true true, .mappingValue], .scalar .plain key.text :: rest⟩ := by
  change nodeUnless [.key, .value, .blockEnd] _ _ ((Block.scalar key.bare).tokens ++ rest) = _
  exact node_unless_block (by simp) _ _ (.scalar key.bare) rest

theorem step_value (block : Block) (rest : List Token) :
    Goal.mappingValue.step handles (.value :: (block.tokens ++ rest)) =
      some ⟨none, [.node true true, .mappingKeys], block.tokens ++ rest⟩ :=
  node_unless_block (by simp) _ _ block rest

end

theorem makes_block_items {items : List Block} (build : ∀ item ∈ items, item.Builds handles)
    (goals : List Goal) (rest : List Token) :
    Makes handles (.sequenceItems :: goals) (tokensOfItems items ++ .blockEnd :: rest)
      (eventsOfItems items ++ [.sequenceEnd]) goals rest := by
  induction items with
  | nil => exact makes_of_step (step_items_end handles rest) goals
  | cons item items induction =>
      rw [List.forall_mem_cons] at build
      have started := makes_of_step
          (step_item handles item (tokensOfItems items ++ .blockEnd :: rest)) goals
      have one := build.1 false (.sequenceItems :: goals) (tokensOfItems items ++ .blockEnd :: rest)
      have whole := started.trans (one.trans (induction build.2))
      simpa [tokensOfItems, eventsOfItems] using whole

theorem makes_block_entries {entries : List (WordKey × Block)}
    (build : ∀ entry ∈ entries, entry.2.Builds handles) (goals : List Goal) (rest : List Token) :
    Makes handles (.mappingKeys :: goals) (tokensOfEntries entries ++ .blockEnd :: rest)
      (eventsOfEntries entries ++ [.mappingEnd]) goals rest := by
  induction entries with
  | nil => exact makes_of_step (step_mapping_keys_end handles rest) goals
  | cons entry entries induction =>
      obtain ⟨key, value⟩ := entry
      rw [List.forall_mem_cons] at build
      let after := tokensOfEntries entries ++ .blockEnd :: rest
      have started := makes_of_step (step_key handles key (.value :: (value.tokens ++ after))) goals
      have keyed :=
        makes_of_step (step_bare handles true true key.text (.value :: (value.tokens ++ after)))
        (.mappingValue :: goals)
      have valued := makes_of_step (step_value handles value after) goals
      have one := build.1 true (.mappingKeys :: goals) after
      have whole := started.trans (keyed.trans (valued.trans (one.trans (induction build.2))))
      simpa [tokensOfEntries, eventsOfEntries] using whole

theorem builds_scalar (bare : Bare) : (Block.scalar bare).Builds handles :=
  fun indentless goals rest => makes_of_step
    (step_bare handles true indentless bare.text rest) goals

theorem builds_sequence {first : Block} {others : List Block}
    (build : ∀ item ∈ first :: others, item.Builds handles) :
    (Block.sequence first others).Builds handles := by
  intro indentless goals rest
  have started := makes_of_step (step_block_sequence handles indentless
    (tokensOfItems (first :: others) ++ .blockEnd :: rest)) goals
  have whole := started.trans (makes_block_items build goals rest)
  simpa [tokens, events, tokensOfItems, eventsOfItems] using whole

theorem builds_mapping {key : WordKey} {value : Block} {others : List (WordKey × Block)}
    (build : ∀ entry ∈ (key, value) :: others, entry.2.Builds handles) :
    (Block.mapping key value others).Builds handles := by
  intro indentless goals rest
  have started := makes_of_step (step_block_mapping handles indentless
    (tokensOfEntries ((key, value) :: others) ++ .blockEnd :: rest)) goals
  have whole := started.trans (makes_block_entries build goals rest)
  simpa [tokens, events, tokensOfEntries, eventsOfEntries] using whole

mutual

theorem builds : ∀ block : Block, block.Builds handles
  | .scalar bare => builds_scalar bare
  | .sequence first others => builds_sequence
      (List.forall_mem_cons.2 ⟨builds first, items_build others⟩)
  | .mapping _ value others => builds_mapping
      (List.forall_mem_cons.2 ⟨builds value, entries_build others⟩)

theorem items_build : ∀ items : List Block, ∀ item ∈ items, item.Builds handles
  | [] => nofun
  | item :: items => List.forall_mem_cons.2 ⟨builds item, items_build items⟩

theorem entries_build :
    ∀ entries : List (WordKey × Block), ∀ entry ∈ entries, entry.2.Builds handles
  | [] => nofun
  | (_, value) :: entries => List.forall_mem_cons.2 ⟨builds value, entries_build entries⟩

end

end

/-- The events of a node add the node to the collection around it. -/
def Grows (block : Block) : Prop :=
  ∀ (anchors : Node.Anchors) (frame : Node.Frame) (frames : List Node.Frame) (rest : List Event),
    (Node.grow anchors (frame :: frames) (block.events ++ rest)).1 =
      (Node.grow anchors (frame.add block.node :: frames) rest).1

section
variable {anchors : Node.Anchors} {frame : Node.Frame} {frames : List Node.Frame}
  {rest : List Event}

theorem grow_bare (text : String) :
    (Node.grow anchors (frame :: frames) (.scalar .absent .plain text :: rest)).1 =
      (Node.grow anchors (frame.add (.scalar ⟨none, none⟩ .plain text) :: frames) rest).1 := rfl

theorem grow_block_items {items : List Block} (grow : ∀ item ∈ items, item.Grows) (label : Label)
    (before : List Node) :
    (Node.grow anchors (.sequence label before :: frames) (eventsOfItems items ++ rest)).1 =
      (Node.grow anchors (.sequence label ((nodesOfItems items).reverse ++ before) :: frames)
        rest).1 := by
  induction items generalizing before with
  | nil => rfl
  | cons item items induction =>
      rw [List.forall_mem_cons] at grow
      rw [eventsOfItems, List.append_assoc, grow.1, Node.Frame.add, induction grow.2, nodesOfItems,
        List.reverse_cons, List.append_assoc]
      rfl

theorem grow_block_entries {entries : List (WordKey × Block)}
    (grow : ∀ entry ∈ entries, entry.2.Grows) (label : Label) (before : List (Node × Node)) :
    (Node.grow anchors (.mapping label before none :: frames) (eventsOfEntries entries ++ rest)).1 =
      (Node.grow anchors (.mapping label ((nodesOfEntries entries).reverse ++ before) none ::
        frames) rest).1 := by
  induction entries generalizing before with
  | nil => rfl
  | cons entry entries induction =>
      obtain ⟨key, value⟩ := entry
      rw [List.forall_mem_cons] at grow
      rw [eventsOfEntries, List.cons_append, List.append_assoc, grow_bare, Node.Frame.add, grow.1,
        Node.Frame.add, induction grow.2, nodesOfEntries, List.reverse_cons, List.append_assoc]
      rfl

end

theorem grows_sequence {first : Block} {others : List Block}
    (grow : ∀ item ∈ first :: others, item.Grows) :
    (Block.sequence first others).Grows := by
  intro anchors frame frames rest
  have line : (Block.sequence first others).events ++ rest =
      .sequenceStart .absent :: (eventsOfItems (first :: others) ++ .sequenceEnd :: rest) := by
    simp [events, eventsOfItems]
  rw [line, Node.grow_sequence_start, grow_block_items grow, Node.grow_sequence_end,
    List.append_nil, Node.Frame.close, List.reverse_reverse]
  rfl

theorem grows_mapping {key : WordKey} {value : Block} {others : List (WordKey × Block)}
    (grow : ∀ entry ∈ (key, value) :: others, entry.2.Grows) :
    (Block.mapping key value others).Grows := by
  intro anchors frame frames rest
  have line : (Block.mapping key value others).events ++ rest =
      .mappingStart .absent :: (eventsOfEntries ((key, value) :: others) ++
        .mappingEnd :: rest) := by
    simp [events, eventsOfEntries]
  rw [line, Node.grow_mapping_start, grow_block_entries grow, Node.grow_mapping_end,
    List.append_nil, Node.Frame.close, List.reverse_reverse]
  rfl

mutual

theorem grows : ∀ block : Block, block.Grows
  | .scalar _ => fun _ _ _ _ => rfl
  | .sequence first others => grows_sequence
      (List.forall_mem_cons.2 ⟨grows first, items_grow others⟩)
  | .mapping _ value others => grows_mapping
      (List.forall_mem_cons.2 ⟨grows value, entries_grow others⟩)

theorem items_grow : ∀ items : List Block, ∀ item ∈ items, item.Grows
  | [] => nofun
  | item :: items => List.forall_mem_cons.2 ⟨grows item, items_grow items⟩

theorem entries_grow : ∀ entries : List (WordKey × Block), ∀ entry ∈ entries, entry.2.Grows
  | [] => nofun
  | (_, value) :: entries => List.forall_mem_cons.2 ⟨grows value, entries_grow entries⟩

end

theorem root_of_mapping (key : WordKey) (value : Block) (others : List (WordKey × Block)) :
    (Node.grow .empty [] (Block.mapping key value others).events).1 =
      (Block.mapping key value others).node := by
  have line : (Block.mapping key value others).events =
      .mappingStart .absent :: (eventsOfEntries ((key, value) :: others) ++ [.mappingEnd]) := by
    simp [events, eventsOfEntries]
  have closed (frame : Node.Frame) :
      (Node.grow .empty [frame] [.mappingEnd]).1 = frame.close true := rfl
  rw [line, Node.grow_mapping_start, grow_block_entries (entries_grow _), closed, List.append_nil,
    Node.Frame.close, List.reverse_reverse]
  rfl

section
variable {step : Nat}

theorem clean_blanks (count : Nat) : Flow.Clean (blanks count) :=
  fun char member => .inl (printable_blanks count char member)

theorem clean_bare (bare : Bare) : Flow.Clean bare.text.toList :=
  fun char member => .inl (bare_char_facts char (bare.chars char member)).1

theorem clean_append {first second : List Char} (before : Flow.Clean first)
    (behind : Flow.Clean second) :
    Flow.Clean (first ++ second) := List.forall_mem_append.2 ⟨before, behind⟩

theorem clean_cons {char : Char} {text : List Char} (one : Printable char ∨ char = '\n')
    (clean : Flow.Clean text) :
    Flow.Clean (char :: text) := List.forall_mem_cons.2 ⟨one, clean⟩

theorem clean_lead (column : Nat) (block : Block) : Flow.Clean (block.lead step column) := by
  cases block with
  | scalar bare => exact clean_blanks 1
  | sequence first others => exact clean_cons (.inr rfl) (clean_blanks _)
  | mapping key value others => exact clean_cons (.inr rfl) (clean_blanks _)

mutual

theorem clean_write : ∀ (block : Block) (column : Nat), Flow.Clean (block.write step column)
  | .scalar bare, _ => clean_bare bare
  | .sequence first others, column =>
      clean_cons (.inl (by decide)) (clean_cons (.inl (by decide))
        (clean_append (clean_write first (column + 2)) (clean_write_items others column)))
  | .mapping key value others, column =>
      clean_append (clean_bare key.bare)
        (clean_cons (.inl (by decide)) (clean_append (clean_lead column value)
        (clean_append (clean_write value (column + step + 1)) (clean_write_entries others column))))

theorem clean_write_items :
    ∀ (items : List Block) (column : Nat), Flow.Clean (writeItems step column items)
  | [], _ => nofun
  | item :: items, column =>
      clean_cons (.inr rfl) (clean_append (clean_blanks column) (clean_cons (.inl (by decide))
        (clean_cons (.inl (by decide))
          (clean_append (clean_write item (column + 2)) (clean_write_items items column)))))

theorem clean_write_entries : ∀ (entries : List (WordKey × Block)) (column : Nat),
    Flow.Clean (writeEntries step column entries)
  | [], _ => nofun
  | (key, value) :: entries, column =>
      clean_cons (.inr rfl) (clean_append (clean_blanks column) (clean_append (clean_bare key.bare)
        (clean_cons (.inl (by decide)) (clean_append (clean_lead column value)
          (clean_append (clean_write value (column + step + 1))
            (clean_write_entries entries column))))))

end

end

theorem event_stream_of_mapping (key : WordKey) (value : Block) (others : List (WordKey × Block)) :
    EventStream.ofTokens ((Block.mapping key value others).tokens ++ [.streamEnd]) =
      ⟨(Block.mapping key value others).events, true⟩ := by
  have several : (Block.mapping key value others).tokens ++ [.streamEnd] ≠ [.streamEnd] := nofun
  have made : Makes Handles.standard _ _ _ _ _ :=
    builds (Block.mapping key value others) false [] [.streamEnd]
  rw [Makes, pursue, List.append_nil] at made
  have read : readDocument ((Block.mapping key value others).tokens ++ [.streamEnd]) = _ := made
  rw [EventStream.ofTokens, if_neg several, read]
  rfl

/-- A text that is one mapping in block style is a sound document with that mapping for its root. -/
theorem document_of_mapping (step : Nat) (key : WordKey) (value : Block)
    (others : List (WordKey × Block)) :
    ∃ count,
      Document.ofText (String.ofList ((Block.mapping key value others).write step 0 ++ ['\n'])) =
      ⟨(Block.mapping key value others).node, count, true⟩ := by
  have clean : Flow.Clean ((Block.mapping key value others).write step 0 ++ ['\n']) :=
    clean_append (clean_write _ 0) (clean_cons (.inr rfl) nofun)
  refine ⟨(Node.grow .empty [] (Block.mapping key value others).events).2, ?_⟩
  rw [Document.ofText, String.toList_ofList, Supply.of_permitted clean.permitted, clean.normalise,
    tokens_of_mapping, event_stream_of_mapping, ← root_of_mapping]
  rfl

end Block

end ManifestLint.Yaml
