import Mathlib.Data.List.Nodup
import ManifestLint.CommandLine.Parse

/-!
Ways to write a check on the command line. Its options may stand in any order among its paths, and
those that every command has also before the command; reading gives back what was written. What a
level was given by some arguments is computed from what they say alone, and each argument that is
read adds what it says.
-/

namespace ManifestLint.CommandLine

/-- What one argument of a check says. -/
inductive Part where
  | switch (switch : Switch)
  | config (path : String)
  | format (name : String)
  | disable (rule : String)
  | path (path : String)
deriving DecidableEq, Repr

namespace Part

def switch? : Part → Option Switch
  | .switch kind => some kind
  | _ => none

def config? : Part → Option String
  | .config file => some file
  | _ => none

def format? : Part → Option String
  | .format name => some name
  | _ => none

def rule? : Part → Option String
  | .disable rule => some rule
  | _ => none

def path? : Part → Option String
  | .path file => some file
  | _ => none

def isShared : Part → Bool
  | .switch _ => true
  | .config _ => true
  | _ => false

/-- The arguments that say something. Values are attached to their options, and a path is no option.
-/
inductive Spelled : Part → String → Prop where
  | quiet : Spelled (.switch .quiet) "--quiet"
  | shortQuiet : Spelled (.switch .quiet) "-q"
  | verbose : Spelled (.switch .verbose) "--verbose"
  | shortVerbose : Spelled (.switch .verbose) "-v"
  | noColour : Spelled (.switch .noColour) "--no-color"
  | config {path : String} (filled : path ≠ "") : Spelled (.config path) ("--config=" ++ path)
  | format (name : String) : Spelled (.format name) ("--format=" ++ name)
  | disable (rule : String) : Spelled (.disable rule) ("--disable=" ++ rule)
  | path {path : String} (plain : path = "-" ∨ path.toList.head? ≠ some '-') : Spelled
      (.path path) path

end Part

/-- What a level is given by arguments that say these parts. -/
def Given.ofParts (parts : List Part) : Given where
  switches := (parts.filterMap Part.switch?).reverse
  config := (parts.filterMap Part.config?).head?
  format := (parts.filterMap Part.format?).head?
  disable := parts.filterMap Part.rule?
  paths := parts.filterMap Part.path?
  shell := none
  pending := none

/-- Parts of which none may be there twice is. -/
structure Once (parts : List Part) : Prop where
  switches : (parts.filterMap Part.switch?).Nodup
  config : (parts.filterMap Part.config?).length ≤ 1
  format : (parts.filterMap Part.format?).length ≤ 1

theorem Once.of_append {first second : List Part} (once : Once (first ++ second)) : Once first := by
  obtain ⟨switches, config, format⟩ := once
  rw [List.filterMap_append] at switches config format
  rw [List.length_append] at config format
  exact ⟨(List.nodup_append.1 switches).1, by omega, by omega⟩

namespace Given

theorem settle_of_parts (parts : List Part) : (ofParts parts).settle = .ok (ofParts parts) := rfl

theorem take_long_setting {level : Level} {setting : Setting} {name : List Char} (given : Given)
    (value : String) (known : level.long? (String.ofList name) = some (.setting setting))
    (plain : '=' ∉ name) :
    given.takeLong level (name ++ '=' :: value.toList) = given.attach setting value := by
  have others : ∀ char ∈ name, (char != '=') = true := by
    intro char member
    have other : char ≠ '=' := by
      intro same
      exact plain (same ▸ member)
    simpa using other
  rw [takeLong, List.takeWhile_append_of_pos others, List.dropWhile_append_of_pos others]
  simp [known]

theorem turn_on_of_once {parts : List Part} {switch : Switch}
    (once : Once (parts ++ [.switch switch])) (lasting : switch ≠ .help ∧ switch ≠ .version) :
    (ofParts parts).turnOn switch = .ok (ofParts (parts ++ [.switch switch])) := by
  have fresh : switch ∉ (ofParts parts).switches := by
    have distinct := once.switches
    rw [List.filterMap_append, List.nodup_append] at distinct
    intro member
    exact distinct.2.2 switch (List.mem_reverse.1 member) switch List.mem_cons_self rfl
  have added : { ofParts parts with switches := switch :: (ofParts parts).switches } =
      ofParts (parts ++ [.switch switch]) := by
    simp [ofParts, Part.switch?, Part.config?, Part.format?, Part.rule?, Part.path?]
  rw [turnOn, settle_of_parts, ← added]
  cases switch with
  | help => exact absurd rfl lasting.1
  | version => exact absurd rfl lasting.2
  | quiet | verbose | noColour | check =>
      change (if _ then _ else _) = _
      rw [if_neg (by simpa using fresh)]
      rfl

theorem nothing_before {Item : Type} {earlier : List Item} {last : Item}
    (one : (earlier ++ [last]).length ≤ 1) :
    earlier = [] := by
  rw [List.length_append, List.length_singleton] at one
  exact List.length_eq_zero_iff.1 (Nat.le_zero.1 (Nat.le_of_succ_le_succ one))

theorem attach_config_of_once {parts : List Part} {path : String}
    (once : Once (parts ++ [.config path])) (filled : path ≠ "") :
    (ofParts parts).attach .config path = .ok (ofParts (parts ++ [.config path])) := by
  have one := once.config
  rw [List.filterMap_append] at one
  have none : parts.filterMap Part.config? = [] := nothing_before one
  rw [attach, settle_of_parts]
  change (ofParts parts).set path .config = _
  simp [set, ofParts, none, filled, Part.switch?, Part.config?, Part.format?, Part.rule?,
    Part.path?]

theorem attach_format_of_once {parts : List Part} {name : String}
    (once : Once (parts ++ [.format name])) :
    (ofParts parts).attach .format name = .ok (ofParts (parts ++ [.format name])) := by
  have one := once.format
  rw [List.filterMap_append] at one
  have none : parts.filterMap Part.format? = [] := nothing_before one
  rw [attach, settle_of_parts]
  change (ofParts parts).set name .format = _
  simp [set, ofParts, none, Part.switch?, Part.config?, Part.format?, Part.rule?, Part.path?]

theorem attach_disable (parts : List Part) (rule : String) :
    (ofParts parts).attach .disable rule = .ok (ofParts (parts ++ [.disable rule])) := by
  rw [attach, settle_of_parts]
  change (ofParts parts).set rule .disable = _
  simp [set, ofParts, Part.switch?, Part.config?, Part.format?, Part.rule?, Part.path?]

theorem take_path (parts : List Part) (literally : Bool) (path : String) :
    (ofParts parts).takePlain .check literally path = .ok (ofParts (parts ++ [.path path])) := by
  rw [takePlain, settle_of_parts]
  change Except.ok _ = _
  simp [ofParts, Part.switch?, Part.config?, Part.format?, Part.rule?, Part.path?]

end Given

open Given (ofParts)

section
variable {parts : List Part} {part : Part} {text : String}

theorem read_setting {level : Level} {setting : Setting} (option : String) (name : List Char)
    (given : Given) (value : String) (written : option.toList = '-' :: '-' :: (name ++ ['=']))
    (known : level.long? (String.ofList name) = some (.setting setting)) (plain : '=' ∉ name) :
    readArgument level given (option ++ value) = given.attach setting value := by
  have shape : Shape.ofText (option ++ value).toList = .long (name ++ '=' :: value.toList) := by
    rw [String.toList_append, written, List.cons_append, List.cons_append, List.append_assoc]
    cases name with
    | nil => rfl
    | cons char name => rfl
  rw [readArgument, shape]
  exact Given.take_long_setting given value known plain

/-- An argument that is read adds what it says, here one for any command. -/
theorem read_shared (level : Level) (once : Once (parts ++ [part])) (shared : part.isShared = true)
    (spelled : part.Spelled text) :
    readArgument level (ofParts parts) text = .ok (ofParts (parts ++ [part])) := by
  cases spelled with
  | quiet | verbose | noColour => exact Given.turn_on_of_once once (by decide)
  | shortQuiet =>
      change (ofParts parts).turnOn .quiet >>= (fun given => given.takeShort level []) = _
      rw [Given.turn_on_of_once once (by decide)]
      rfl
  | shortVerbose =>
      change (ofParts parts).turnOn .verbose >>= (fun given => given.takeShort level []) = _
      rw [Given.turn_on_of_once once (by decide)]
      rfl
  | config filled =>
      rw [read_setting "--config=" "config".toList _ _ (by decide) rfl (by decide)]
      exact Given.attach_config_of_once once filled
  | format | disable | path => cases shared

theorem shape_of_plain (plain : text = "-" ∨ text.toList.head? ≠ some '-') :
    Shape.ofText text.toList = .plain := by
  obtain rfl | other := plain
  · decide
  · cases chars : text.toList with
    | nil => rfl
    | cons char rest =>
        rw [chars, List.head?_cons, ne_eq, Option.some.injEq] at other
        rw [Shape.ofText]
        all_goals simp_all

theorem read_part (once : Once (parts ++ [part])) (spelled : part.Spelled text) :
    readArgument .check (ofParts parts) text = .ok (ofParts (parts ++ [part])) := by
  by_cases shared : part.isShared = true
  · exact read_shared .check once shared spelled
  · cases spelled with
    | format name =>
        rw [read_setting "--format=" "format".toList _ _ (by decide) rfl (by decide)]
        exact Given.attach_format_of_once once
    | disable rule =>
        rw [read_setting "--disable=" "disable".toList _ _ (by decide) rfl (by decide)]
        exact Given.attach_disable parts rule
    | path plain =>
        rw [readArgument, shape_of_plain plain]
        exact Given.take_path parts false text
    | quiet | shortQuiet | verbose | shortVerbose | noColour | config => exact absurd rfl shared

theorem spelled_is_no_escape (spelled : part.Spelled text) : text ≠ "--" := by
  cases spelled with
  | quiet | shortQuiet | verbose | shortVerbose | noColour => decide
  | config | format | disable =>
      intro same
      have chars := congrArg String.toList same
      simp [String.toList_append] at chars
  | path plain =>
      rintro rfl
      revert plain
      decide

theorem dash_of_shared (shared : part.isShared = true) (spelled : part.Spelled text) :
    text.toList.head? = some '-' := by
  cases spelled with
  | quiet | shortQuiet | verbose | shortVerbose | noColour => decide
  | config =>
      rw [String.toList_append]
      rfl
  | format | disable | path => cases shared

theorem no_command_of_dash (dash : text.toList.head? = some '-') :
    Level.isCommand text = false := by
  have other (name : String) (unlike : name.toList.head? ≠ some '-') : text ≠ name := by
    rintro rfl
    exact unlike dash
  simp [Level.isCommand, Level.ofName?, other "check" (by decide), other "rules" (by decide),
    other "template" (by decide), other "completions" (by decide), other "version" (by decide),
    other "help" (by decide)]

end

section
variable {parts : List Part} {texts : List String}

/-- The induction is on the arguments; what was read of them so far is what their parts say. -/
theorem read_level_parts (earlier : List Part) (spelled : List.Forall₂ Part.Spelled parts texts)
    (once : Once (earlier ++ parts)) (literal : List String) :
    readLevel .check (ofParts earlier) (texts ++ "--" :: literal) =
      readLiterally .check (ofParts (earlier ++ parts)) literal := by
  induction spelled generalizing earlier with
  | nil =>
      rw [List.append_nil, List.nil_append, readLevel, if_pos rfl]
  | @cons part text parts texts first _ induction =>
      rw [List.append_cons earlier part parts] at once ⊢
      rw [List.cons_append, readLevel, if_neg (spelled_is_no_escape first),
        read_part once.of_append first]
      exact induction (earlier ++ [part]) once

theorem read_top_parts (earlier : List Part) (spelled : List.Forall₂ Part.Spelled parts texts)
    (once : Once (earlier ++ parts)) (shared : ∀ part ∈ parts, part.isShared = true)
    (rest : List String) :
    readTop (ofParts earlier) (texts ++ "check" :: rest) =
      readCommand (ofParts (earlier ++ parts)) .check rest := by
  induction spelled generalizing earlier with
  | nil =>
      rw [List.append_nil, List.nil_append, readTop]
      rfl
  | @cons part text parts texts first _ induction =>
      rw [List.forall_mem_cons] at shared
      have noCommand := no_command_of_dash (dash_of_shared shared.1 first)
      rw [Level.isCommand, Bool.or_eq_false_iff] at noCommand
      have noLevel : Level.ofName? text = none := by simpa using noCommand.1
      rw [List.append_cons earlier part parts] at once ⊢
      rw [List.cons_append, readTop, noCommand.2, noLevel, Bool.and_false, ite_self,
        if_neg (spelled_is_no_escape first), read_shared .top once.of_append shared.1 first]
      exact induction (earlier ++ [part]) once shared.2

theorem read_literal_paths (parts : List Part) (literal : List String) :
    readLiterally .check (ofParts parts) literal = .ok (ofParts (parts ++ literal.map .path)) := by
  induction literal generalizing parts with
  | nil => rw [readLiterally, List.map_nil, List.append_nil]
  | cons path literal induction =>
      rw [readLiterally, Given.take_path, List.map_cons,
        List.append_cons parts (.path path) (literal.map .path)]
      exact induction (parts ++ [.path path])

end

/-- What a check can be told. -/
structure Choice where
  quiet : Bool
  verbose : Bool
  noColour : Bool
  config : Option String
  format : Option String
  disable : List String
  paths : List String
deriving DecidableEq, Repr

namespace Choice

def shared (choice : Choice) : List Part :=
  (if choice.quiet then [.switch .quiet] else []) ++
    (if choice.verbose then [.switch .verbose] else [])
    ++ (if choice.noColour then [.switch .noColour] else []) ++ choice.config.toList.map .config

def invocation (choice : Choice) : Invocation :=
  ⟨.check choice.paths choice.format choice.disable, choice.quiet, choice.verbose, choice.noColour,
    choice.config⟩

/-- An arrangement of all that was chosen: shared options once on either side of the command, other
options and some paths behind it, and the rest of the paths behind the two dashes. -/
structure Arranged (choice : Choice) (outer inner : List Part) (literal : List String) : Prop where
  shared : (outer ++ inner.filter Part.isShared).Perm choice.shared
  format : inner.filterMap Part.format? = choice.format.toList
  disable : inner.filterMap Part.rule? = choice.disable
  paths : inner.filterMap Part.path? ++ literal = choice.paths

theorem all_shared (choice : Choice) : ∀ part ∈ choice.shared, part.isShared = true := by
  intro part member
  simp only [shared, List.mem_append, List.mem_map] at member
  rcases member with ((quiet | verbose) | noColour) | ⟨path, _, rfl⟩
  · split at quiet <;> simp_all [Part.isShared]
  · split at verbose <;> simp_all [Part.isShared]
  · split at noColour <;> simp_all [Part.isShared]
  · rfl

theorem switches_of_shared (choice : Choice) :
    choice.shared.filterMap Part.switch? =
      (if choice.quiet then [.quiet] else []) ++ (if choice.verbose then [.verbose] else [])
        ++ (if choice.noColour then [.noColour] else []) := by
  obtain ⟨quiet, verbose, noColour, config, _, _, _⟩ := choice
  cases quiet <;> cases verbose <;> cases noColour <;> cases config <;> rfl

theorem switches_distinct (choice : Choice) : (choice.shared.filterMap Part.switch?).Nodup := by
  rw [switches_of_shared]
  cases choice.quiet <;> cases choice.verbose <;> cases choice.noColour <;> decide

theorem config_of_shared (choice : Choice) :
    choice.shared.filterMap Part.config? = choice.config.toList := by
  obtain ⟨quiet, verbose, noColour, config, _, _, _⟩ := choice
  cases quiet <;> cases verbose <;> cases noColour <;> cases config <;> rfl

variable {choice : Choice} {outer inner : List Part} {literal : List String}

theorem filter_map_shared {Value : Type} {view : Part → Option Value}
    (other : ∀ part, part.isShared = false → view part = none) (parts : List Part) :
    (parts.filter Part.isShared).filterMap view = parts.filterMap view := by
  rw [List.filterMap_filter]
  congr 1
  funext part
  cases isShared : part.isShared with
  | true => rfl
  | false => exact (other part isShared).symm

theorem Arranged.view {Value : Type} {view : Part → Option Value}
    (other : ∀ part, part.isShared = false → view part = none)
    (arranged : choice.Arranged outer inner literal) :
    (outer.filterMap view ++ inner.filterMap view).Perm (choice.shared.filterMap view) := by
  rw [← filter_map_shared other inner, ← List.filterMap_append]
  exact arranged.shared.filterMap view

theorem Arranged.switches (arranged : choice.Arranged outer inner literal) :
    (outer.filterMap Part.switch? ++ inner.filterMap Part.switch?).Perm
      (choice.shared.filterMap Part.switch?) := by
  apply arranged.view
  intro part other
  cases part <;> first | rfl | cases other

theorem Arranged.config (arranged : choice.Arranged outer inner literal) :
    outer.filterMap Part.config? ++ inner.filterMap Part.config? = choice.config.toList := by
  have perm : (outer.filterMap Part.config? ++ inner.filterMap Part.config?).Perm
      (choice.shared.filterMap Part.config?) := by
    apply arranged.view
    intro part other
    cases part <;> first | rfl | cases other
  rw [config_of_shared] at perm
  cases chosen : choice.config with
  | none =>
      rw [chosen] at perm
      exact perm.eq_nil
  | some path =>
      rw [chosen] at perm
      exact List.perm_singleton.1 perm

theorem Arranged.all_outer_shared (arranged : choice.Arranged outer inner literal) :
    ∀ part ∈ outer, part.isShared = true := by
  intro part member
  exact choice.all_shared part (arranged.shared.subset (List.mem_append_left _ member))

theorem Arranged.once (arranged : choice.Arranged outer inner literal) :
    Once outer ∧ Once inner := by
  have distinct := (arranged.switches.nodup_iff).2 choice.switches_distinct
  have config := congrArg List.length arranged.config
  have format := congrArg List.length arranged.format
  have one (value : Option String) : value.toList.length ≤ 1 := by
    cases value with
    | none => exact Nat.zero_le 1
    | some text => exact Nat.le_refl 1
  have configOne := one choice.config
  have formatOne := one choice.format
  rw [List.nodup_append] at distinct
  rw [List.length_append] at config
  have outerFormat : outer.filterMap Part.format? = [] := by
    rw [List.filterMap_eq_nil_iff]
    intro part member
    have shared := arranged.all_outer_shared part member
    cases part <;> first | rfl | cases shared
  refine ⟨⟨distinct.1, by omega, ?_⟩, ⟨distinct.2.1, by omega, by omega⟩⟩
  rw [outerFormat]
  exact Nat.zero_le 1

theorem Arranged.on (arranged : choice.Arranged outer inner literal) (switch : Switch) :
    ((ofParts outer).switches.contains switch || (ofParts inner).switches.contains switch) =
      (choice.shared.filterMap Part.switch?).contains switch := by
  have member := arranged.switches.mem_iff (a := switch)
  rw [List.mem_append] at member
  rw [Bool.eq_iff_iff, Bool.or_eq_true, List.contains_iff_mem, List.contains_iff_mem,
    List.contains_iff_mem, ← member]
  simp only [ofParts, List.mem_reverse]

theorem head_of_either {first second : List String} {value : Option String}
    (parts : first ++ second = value.toList) :
    second.head?.or first.head? = value := by
  cases value with
  | none =>
      obtain ⟨rfl, rfl⟩ := List.append_eq_nil_iff.1 parts
      rfl
  | some text =>
      rw [Option.toList_some, List.append_eq_singleton_iff] at parts
      rcases parts with ⟨rfl, rfl⟩ | ⟨rfl, rfl⟩ <;> rfl

theorem of_parts_behind (parts : List Part) (literal : List String) :
    ofParts (parts ++ literal.map Part.path) =
      { ofParts parts with paths := parts.filterMap Part.path? ++ literal } := by
  simp [ofParts, List.filterMap_map, Function.comp_def, Part.switch?, Part.config?, Part.format?,
    Part.rule?, Part.path?]

/-- What was given on both sides of the command is together what was chosen. -/
theorem Arranged.combined (arranged : choice.Arranged outer inner literal) {given : Given}
    (behind : given = ofParts (inner ++ literal.map Part.path)) :
    combine (ofParts outer) given (.check given.paths given.format given.disable) =
      choice.invocation := by
  have on := arranged.on
  rw [switches_of_shared] at on
  have config : (ofParts inner).config.or (ofParts outer).config = choice.config :=
    head_of_either arranged.config
  have format : (ofParts inner).format = choice.format := by
    rw [ofParts, arranged.format]
    cases choice.format <;> rfl
  have disable : (ofParts inner).disable = choice.disable := arranged.disable
  rw [of_parts_behind, arranged.paths] at behind
  rw [behind, combine, invocation, disable, format, config]
  simp only [on]
  cases choice.quiet <;> cases choice.verbose <;> cases choice.noColour <;> rfl

end Choice

/-- However the options of a check are arranged on the command line, reading it gives them back. -/
theorem parse_arranged_check (choice : Choice) (outer inner : List Part)
    (before behind literal : List String) (arranged : choice.Arranged outer inner literal)
    (beforeSpelled : List.Forall₂ Part.Spelled outer before)
    (behindSpelled : List.Forall₂ Part.Spelled inner behind) :
    parse (before ++ "check" :: (behind ++ "--" :: literal)) = .ok choice.invocation := by
  obtain ⟨outerOnce, innerOnce⟩ := arranged.once
  have top : parse (before ++ "check" :: (behind ++ "--" :: literal)) =
      readCommand (ofParts outer) .check (behind ++ "--" :: literal) :=
    read_top_parts [] beforeSpelled outerOnce arranged.all_outer_shared _
  have level : readLevel .check .empty (behind ++ "--" :: literal) =
      .ok (ofParts (inner ++ literal.map Part.path)) := by
    rw [← read_literal_paths]
    exact read_level_parts [] behindSpelled innerOnce literal
  rw [top, readCommand, level]
  exact congrArg Except.ok (arranged.combined rfl)

/-- A choice of nearly everything. -/
def fullChoice : Choice :=
  ⟨true, true, false, some "c.md", some "json", ["-a=b", "x"], ["-", "p", "--quiet", ""]⟩

theorem full_choice_arranged :
    fullChoice.Arranged [.switch .quiet]
      [.disable "-a=b", .path "-", .config "c.md", .switch .verbose, .format "json", .path "p",
        .disable "x"]
      ["--quiet", ""] where
  shared := by decide
  format := rfl
  disable := rfl
  paths := rfl

theorem parse_full_choice :
    parse ["-q", "check", "--disable=-a=b", "-", "--config=c.md", "--verbose", "--format=json", "p",
      "--disable=x",
      "--", "--quiet", ""] =
      .ok ⟨.check ["-", "p", "--quiet", ""] (some "json") ["-a=b", "x"], true, true, false,
        some "c.md"⟩ := by
  have before : List.Forall₂ Part.Spelled [.switch .quiet] ["-q"] := .cons .shortQuiet .nil
  have behind : List.Forall₂ Part.Spelled
      [.disable "-a=b", .path "-", .config "c.md", .switch .verbose, .format "json", .path "p",
        .disable "x"]
      ["--disable=-a=b", "-", "--config=c.md", "--verbose", "--format=json", "p", "--disable=x"] :=
    .cons (.disable "-a=b") <| .cons (.path (.inl rfl)) <| .cons (.config (by decide)) <|
      .cons .verbose <|
      .cons (.format "json") <| .cons (.path (.inr (by decide))) <| .cons (.disable "x") .nil
  exact parse_arranged_check fullChoice _ _ _ _ _ full_choice_arranged before behind

end ManifestLint.CommandLine
