import BuildRunner.CommandLine.ScanArguments

/-!
# The command lines that scanners accept

Accepted arguments are put together from an extension, in one argument or in two, and a directory,
each given at most once and in any order, and a separator, behind which only the directory can
stand. The result is what was given, or the default (`accepted_arguments`).

A reading settles an argument only when the next one comes or when there is none, so that it can
name the first fault. For what is accepted this makes no difference: a reading goes on as if what
is pending had been accepted at once (`finish_of_settle`), and one with something pending that
cannot be accepted never ends well (`Stuck`). So the arguments can be taken one after the other.
-/

namespace BuildRunner.ScanArguments

/-! ## What can be given -/

/-- A text that is not taken for an option: a hyphen alone, or one that does not start with a
hyphen. -/
def Plain (argument : String) : Prop :=
  argument = "-" ∨ argument.toList.head? ≠ some '-'

instance (argument : String) : Decidable (Plain argument) :=
  inferInstanceAs (Decidable (_ ∨ _))

/-- What can be given to a scanner before a separator. -/
inductive Given where
  /-- The option with the extension behind an equals sign. -/
  | joined (extension : String)
  /-- The option, and the extension in an argument of its own. -/
  | separate (extension : String)
  | root (path : String)
  deriving DecidableEq, Repr

namespace Given

/-- How it is given. -/
def arguments : Given → List String
  | joined extension => ["--extension=" ++ extension]
  | separate extension => ["--extension", extension]
  | root path => [path]

/-- The directory that is given. -/
def root? : Given → Option String
  | joined _ => none
  | separate _ => none
  | root path => some path

/-- The extension that is given. -/
def extension? : Given → Option String
  | joined extension => some extension
  | separate extension => some extension
  | root _ => none

/-- What stands in an argument of its own must not look like an option, and a directory must be
named. -/
def Sound : Given → Prop
  | joined _ => True
  | separate extension => Plain extension
  | root path => path ≠ "" ∧ Plain path

end Given

/-- Arguments for a scanner, put together. -/
structure Wording where
  given : List Given
  /-- What stands behind the separator, if there is one: a directory or nothing. -/
  behind : Option (Option String)

namespace Wording

/-- All arguments. -/
def arguments (wording : Wording) : List String :=
  wording.given.flatMap Given.arguments ++
    match wording.behind with
    | none => []
    | some root? => "--" :: root?.toList

/-- The directories that are given. -/
def roots (wording : Wording) : List String :=
  wording.given.filterMap Given.root? ++ wording.behind.join.toList

/-- The extensions that are given. -/
def extensions (wording : Wording) : List String :=
  wording.given.filterMap Given.extension?

/-- What is asked for. -/
def wanted (wording : Wording) : ScanArguments :=
  ⟨⟨wording.roots.head?.getD "."⟩, wording.extensions.head?.getD "zig"⟩

/-- The rules for what is given. -/
structure Allowed (wording : Wording) : Prop where
  sound : ∀ given ∈ wording.given, given.Sound
  named : wording.behind ≠ some (some "")
  oneRoot : wording.roots.length ≤ 1
  oneExtension : wording.extensions.length ≤ 1

/-- The rules for what is given behind a directory and an extension, as far as there are any. -/
structure Follows (root extension : Option String) (wording : Wording) : Prop
    extends wording.Allowed where
  noRoot : root = none ∨ wording.roots = []
  noExtension : extension = none ∨ wording.extensions = []

end Wording

/-! ## Shapes of arguments -/

theorem shape_of_plain {argument : String} (plain : Plain argument) : shape argument = .value := by
  rcases plain with rfl | front
  · rfl
  · rw [shape]
    split
    · next chars => simp [chars] at front
    · next chars => simp [chars] at front
    · next chars => simp [chars] at front
    · rfl

/-- The option in one argument with its value. -/
theorem shape_joined (extension : String) :
    shape ("--extension=" ++ extension) = .long "extension" (some extension) := by
  have chars : ("--extension=" ++ extension).toList =
      '-' :: '-' :: ("extension=".toList ++ extension.toList) := by
    rw [String.toList_append]
    rfl
  rw [shape, chars]
  simp [cutOption]

/-- A text is the name of an option, or the name and a value with an equals sign between them. -/
theorem cutOption_cases (cs : List Char) :
    cutOption cs = (String.ofList cs, none) ∨
      ∃ name value, cs = name ++ '=' :: value ∧
        cutOption cs = (String.ofList name, some (String.ofList value)) := by
  have whole := List.takeWhile_append_dropWhile (p := fun c => decide (c ≠ '=')) (l := cs)
  rw [cutOption]
  split
  · next none =>
    rw [none, List.append_nil] at whole
    exact .inl (by rw [whole])
  · next c value rest =>
    have sign := List.head?_dropWhile_not (fun c => decide (c ≠ '=')) cs
    rw [rest] at sign whole
    obtain rfl : c = '=' := by simpa using sign
    exact .inr ⟨_, value, whole.symm, rfl⟩

/-- What an argument of some shape looks like. Nothing needs to be known of letters behind one
hyphen: no such argument is accepted. -/
def Shape.Shows (argument : String) : Shape → Prop
  | separator => argument = "--"
  | long name given => argument = "--" ++ name ++ given.elim "" ("=" ++ ·)
  | short _ => True
  | value => Plain argument

theorem shows_shape (argument : String) : (shape argument).Shows argument := by
  have text {chars : List Char} (own : argument.toList = chars) : argument = String.ofList chars :=
    String.toList_inj.mp (own.trans String.toList_ofList.symm)
  rw [shape]
  split
  · next chars => exact text chars
  · next rest _ chars =>
    rcases cutOption_cases rest with cut | ⟨name, value, rfl, cut⟩ <;>
    · rw [cut]
      refine String.toList_inj.mp ?_
      simp [chars]
  · trivial
  · next noLong noShort =>
    by_cases alone : argument = "-"
    · exact .inl alone
    · refine .inr fun front => ?_
      obtain ⟨rest, chars⟩ := List.head?_eq_some_iff.mp front
      cases rest with
      | nil => exact alone (text chars)
      | cons c rest => exact noShort c rest chars

namespace Reading

variable {reading reading' settled final : Reading} {arguments : List String} {argument : String}
  {root extension : Option String}

/-! ## Reading to the end -/

/-- Reads the other arguments and accepts what is pending in the end. -/
def finish (reading : Reading) (arguments : List String) : Except UsageFault Reading := do
  let reading ← arguments.foldlM add reading
  reading.settle

theorem finish_nil (reading : Reading) : reading.finish [] = reading.settle :=
  rfl

theorem finish_cons (reading : Reading) (argument : String) (arguments : List String) :
    reading.finish (argument :: arguments) =
      reading.add argument >>= fun reading => reading.finish arguments := by
  rw [finish, List.foldlM_cons, bind_assoc]
  rfl

theorem finish_cons_eq_ok : reading.finish (argument :: arguments) = .ok final ↔
    ∃ next, reading.add argument = .ok next ∧ next.finish arguments = .ok final := by
  rw [finish_cons]
  cases reading.add argument with
  | error fault => simp [bind, Except.bind]
  | ok next => simp [bind, Except.bind]

/-- What is known of a reading whose pending part can be accepted. -/
theorem settle_eq_ok (h : reading.settle = .ok settled) :
    settled.settle = .ok settled ∧ settled.hasRoot = reading.hasRoot ∧
      settled.plain = reading.plain ∧ settled.pending = .nothing ∧
      reading.pending ≠ .extension none := by
  obtain ⟨root, extension, pending, plain⟩ := reading
  cases pending with
  | nothing =>
    cases h
    exact ⟨rfl, rfl, rfl, rfl, nofun⟩
  | extension value =>
    cases value with
    | none => cases h
    | some value =>
      cases extension with
      | some other => cases h
      | none =>
        cases h
        exact ⟨rfl, rfl, rfl, rfl, nofun⟩
  | root path =>
    rw [settle] at h
    dsimp only at h
    split at h
    · cases h
    · cases h
      refine ⟨rfl, ?_, rfl, rfl, nofun⟩
      simp [hasRoot]

/-- Accepting what is pending does not depend on the separator. -/
theorem settle_separated (reading : Reading) :
    { reading with plain := true }.settle =
      reading.settle.map fun settled => { settled with plain := true } := by
  obtain ⟨root, extension, pending, plain⟩ := reading
  cases pending with
  | nothing => rfl
  | extension value => cases value <;> cases extension <;> rfl
  | root path =>
    simp only [settle]
    split <;> rfl

theorem add_of_plain (plain : reading.plain = true) (argument : String) :
    reading.add argument = reading.addRoot argument := by
  rw [add, if_pos plain]

theorem add_separator (options : reading.plain = false) :
    reading.add "--" = .ok { reading with plain := true } := by
  rw [add, options]
  rfl

theorem addRoot_of_settle (h : reading.settle = .ok settled) (argument : String) :
    reading.addRoot argument = settled.addRoot argument := by
  obtain ⟨again, hasRoot, _⟩ := settle_eq_ok h
  rw [addRoot, addRoot, hasRoot, h, again]

theorem addExtension_of_settle (h : reading.settle = .ok settled) (value : Option String) :
    reading.addExtension value = settled.addExtension value := by
  rw [addExtension, addExtension, h, (settle_eq_ok h).1]

/-- With something pending that can be accepted, an argument is read as it is after that, unless it
is a separator. -/
theorem add_of_settle (h : reading.settle = .ok settled) (argument : String)
    (other : reading.plain = true ∨ argument ≠ "--") :
    reading.add argument = settled.add argument := by
  obtain ⟨again, _, plain, nothing, given⟩ := settle_eq_ok h
  cases options : reading.plain with
  | true => rw [add_of_plain options, add_of_plain (plain.trans options), addRoot_of_settle h]
  | false =>
    have notSeparator : argument ≠ "--" := other.resolve_left (by simp [options])
    rw [add, add, plain, options, h, again, addRoot_of_settle h]
    simp only [addExtension_of_settle h, nothing]
    have own := shows_shape argument
    cases kind : shape argument with
    | separator =>
      rw [kind] at own
      exact absurd own notSeparator
    | long name value => rfl
    | short first => rfl
    | value => rfl

/-- A reading goes on as if what is pending had been accepted at once. -/
theorem finish_of_settle (h : reading.settle = .ok settled) (arguments : List String) :
    reading.finish arguments = settled.finish arguments := by
  induction arguments generalizing reading settled with
  | nil => rw [finish_nil, finish_nil, h, (settle_eq_ok h).1]
  | cons argument arguments ih =>
    obtain ⟨_, _, plain, _⟩ := settle_eq_ok h
    by_cases other : reading.plain = true ∨ argument ≠ "--"
    · rw [finish_cons, finish_cons, add_of_settle h argument other]
    · obtain ⟨options, separator⟩ := not_or.mp other
      rw [Bool.not_eq_true] at options
      obtain rfl := Decidable.not_not.mp separator
      rw [finish_cons, finish_cons, add_separator options, add_separator (plain.trans options)]
      refine ih ?_
      rw [settle_separated, h]
      rfl

/-- Where options are looked for, an argument is a separator, the option for the extension, or a
value, which belongs to an option that waits for it. -/
theorem add_cases (options : reading.plain = false) (h : reading.add argument = .ok reading') :
    argument = "--" ∧ reading' = { reading with plain := true } ∨
      (∃ value, argument = "--extension" ++ value.elim "" ("=" ++ ·) ∧
        reading.addExtension value = .ok reading') ∨
      Plain argument ∧ reading.pending = .extension none ∧
        reading' = { reading with pending := .extension (some argument) } ∨
      Plain argument ∧ reading.pending ≠ .extension none ∧
        reading.addRoot argument = .ok reading' := by
  have own := shows_shape argument
  rw [add, options, if_neg Bool.false_ne_true] at h
  cases kind : shape argument with
  | separator =>
    rw [kind] at h own
    exact .inl ⟨own, (Except.ok.inj h).symm⟩
  | long name value =>
    simp only [kind] at h own
    split at h
    · next extension =>
      subst extension
      exact .inr (.inl ⟨value, own, h⟩)
    · split at h
      · cases value with
        | some value => cases h
        | none =>
          simp only at h
          cases settled : reading.settle with
          | error fault => rw [settled] at h; cases h
          | ok other => rw [settled] at h; cases h
      · cases h
  | short first =>
    simp only [kind] at h own
    split at h
    · cases settled : reading.settle with
      | error fault => rw [settled] at h; cases h
      | ok other => rw [settled] at h; cases h
    · cases h
  | value =>
    simp only [kind] at h own
    split at h
    · next waiting =>
      rw [options]
      exact .inr (.inr (.inl ⟨own, waiting, (Except.ok.inj h).symm⟩))
    · next given => exact .inr (.inr (.inr ⟨own, given, h⟩))

/-! ## What is pending and cannot be accepted -/

/-- Something is pending that cannot be accepted, and does not wait for its value. -/
structure Stuck (reading : Reading) : Prop where
  refused : ∃ fault, reading.settle = .error fault
  waiting : reading.pending = .extension none → reading.plain = true

/-- Such a reading reads no more than a separator. -/
theorem Stuck.add_eq_ok (stuck : reading.Stuck) (h : reading.add argument = .ok reading') :
    reading'.Stuck := by
  obtain ⟨⟨fault, refused⟩, waiting⟩ := stuck
  have root : reading.addRoot argument ≠ .ok reading' := by
    rw [addRoot, refused]
    split <;> nofun
  cases options : reading.plain with
  | true => exact absurd h (add_of_plain options argument ▸ root)
  | false =>
    obtain ⟨_, rfl⟩ | ⟨value, _, added⟩ | ⟨_, waits, _⟩ | ⟨_, _, added⟩ := add_cases options h
    · exact ⟨⟨fault, by rw [settle_separated, refused]; rfl⟩, fun _ => rfl⟩
    · rw [addExtension, refused] at added
      cases added
    · cases options.symm.trans (waiting waits)
    · exact absurd added root

/-- So it never ends well. -/
theorem Stuck.finish_ne_ok (stuck : reading.Stuck) (arguments : List String) (final : Reading) :
    reading.finish arguments ≠ .ok final := by
  induction arguments generalizing reading with
  | nil =>
    obtain ⟨fault, refused⟩ := stuck.refused
    rw [finish_nil, refused]
    nofun
  | cons argument arguments ih =>
    intro ended
    obtain ⟨next, added, rest⟩ := finish_cons_eq_ok.mp ended
    exact ih (stuck.add_eq_ok added) rest

/-- A directory without a name is never accepted. -/
theorem stuck_addRoot (extension : Option String) (plain : Bool) :
    (Reading.mk none extension (.root "") plain).Stuck :=
  ⟨⟨.missingRoot, rfl⟩, nofun⟩

/-- Nor is a second extension. -/
theorem stuck_addExtension (root : Option String) (other value : String) (plain : Bool) :
    (Reading.mk root (some other) (.extension (some value)) plain).Stuck :=
  ⟨⟨.repeatedExtension, rfl⟩, nofun⟩

/-! ## One thing after the other -/

/-- A reading of which all is accepted. -/
def of (root extension : Option String) (plain : Bool) : Reading :=
  ⟨root, extension, .nothing, plain⟩

theorem finish_joined (root : Option String) (value : String) (arguments : List String) :
    (of root none false).finish (("--extension=" ++ value) :: arguments) =
      (of root (some value) false).finish arguments := by
  have added : (of root none false).add ("--extension=" ++ value) =
      .ok (of root (some value) false) := by
    rw [add, shape_joined]
    rfl
  rw [finish_cons, added]
  rfl

theorem finish_separate {value : String} (plain : Plain value) (root : Option String)
    (arguments : List String) :
    (of root none false).finish ("--extension" :: value :: arguments) =
      (of root (some value) false).finish arguments := by
  have added : (Reading.mk root none (.extension none) false).add value =
      .ok ⟨root, none, .extension (some value), false⟩ := by
    rw [add, shape_of_plain plain]
    rfl
  have waits : (of root none false).add "--extension" =
      .ok ⟨root, none, .extension none, false⟩ := rfl
  rw [finish_cons, waits]
  show Reading.finish _ _ = _
  rw [finish_cons, added]
  exact finish_of_settle rfl arguments

theorem finish_addRoot {path : String} (named : path ≠ "") (extension : Option String)
    (plain : Bool) (arguments : List String) :
    (Reading.mk none extension (.root path) plain).finish arguments =
      (of (some path) extension plain).finish arguments := by
  refine finish_of_settle ?_ arguments
  rw [settle]
  exact if_neg named

theorem finish_root {path : String} (plain : Plain path) (named : path ≠ "")
    (extension : Option String) (arguments : List String) :
    (of none extension false).finish (path :: arguments) =
      (of (some path) extension false).finish arguments := by
  have added : (of none extension false).add path = .ok ⟨none, extension, .root path, false⟩ := by
    rw [add, shape_of_plain plain]
    rfl
  rw [finish_cons, added]
  exact finish_addRoot named extension false arguments

theorem finish_separator (root extension : Option String) (arguments : List String) :
    (of root extension false).finish ("--" :: arguments) =
      (of root extension true).finish arguments :=
  rfl

/-- Behind a separator there is a directory or nothing. -/
theorem finish_behind : (of root extension true).finish arguments = .ok final ↔
    ∃ behind : Option String, arguments = behind.toList ∧ behind ≠ some "" ∧
      (root = none ∨ behind = none) ∧ final = of (root.or behind) extension true := by
  have second (path : String) (argument : String) (arguments : List String) :
      (of (some path) extension true).finish (argument :: arguments) ≠ .ok final := by
    rw [finish_cons, add_of_plain rfl]
    nofun
  constructor
  · intro ended
    cases arguments with
    | nil =>
      refine ⟨none, rfl, nofun, .inr rfl, ?_⟩
      rw [Option.or_none]
      exact (Except.ok.inj ended).symm
    | cons path arguments =>
      cases root with
      | some other => exact absurd ended (second other path arguments)
      | none =>
        have pending : (Reading.mk none extension (.root path) true).finish arguments = .ok final :=
          ended
        by_cases named : path = ""
        · subst named
          exact absurd pending ((stuck_addRoot extension true).finish_ne_ok _ _)
        · rw [finish_addRoot named] at pending
          cases arguments with
          | nil =>
            exact ⟨some path, rfl, by simpa using named, .inl rfl, (Except.ok.inj pending).symm⟩
          | cons argument arguments => exact absurd pending (second path argument arguments)
  · rintro ⟨behind, rfl, named, fits, rfl⟩
    cases behind with
    | none =>
      rw [Option.or_none]
      rfl
    | some path =>
      obtain rfl : root = none := fits.resolve_right nofun
      exact finish_addRoot (by simpa using named) extension true []

/-- What is given as it should be is accepted, if nothing of its kind was given before. -/
theorem finish_given {given : Given} (sound : given.Sound)
    (noRoot : root = none ∨ given.root? = none)
    (noExtension : extension = none ∨ given.extension? = none) (arguments : List String) :
    (of root extension false).finish (given.arguments ++ arguments) =
      (of (root.or given.root?) (extension.or given.extension?) false).finish arguments := by
  cases given with
  | joined value =>
    obtain rfl : extension = none := noExtension.resolve_right nofun
    rw [Given.root?, Option.or_none]
    exact finish_joined root value arguments
  | separate value =>
    obtain rfl : extension = none := noExtension.resolve_right nofun
    rw [Given.root?, Option.or_none]
    exact finish_separate sound root arguments
  | root path =>
    obtain rfl : root = none := noRoot.resolve_right nofun
    rw [Given.extension?, Option.or_none]
    exact finish_root sound.2 sound.1 extension arguments

/-- An option that waits for its value is given one, and it is the first option. -/
theorem waiting_eq_ok
    (ended : (Reading.mk root extension (.extension none) false).finish arguments = .ok final) :
    ∃ value others, arguments = value :: others ∧ Plain value ∧ extension = none := by
  cases arguments with
  | nil => cases ended
  | cons value others =>
    obtain ⟨next, one, rest⟩ := finish_cons_eq_ok.mp ended
    obtain ⟨_, rfl⟩ | ⟨_, _, added⟩ | ⟨plain, _, rfl⟩ | ⟨_, given, _⟩ := add_cases rfl one
    · have stuck : (Reading.mk root extension (.extension none) true).Stuck :=
        ⟨⟨.missingExtension, rfl⟩, fun _ => rfl⟩
      exact absurd rest (stuck.finish_ne_ok _ _)
    · cases added
    · refine ⟨value, others, rfl, plain, ?_⟩
      cases extension with
      | none => rfl
      | some other =>
        exact absurd rest ((stuck_addExtension root other value false).finish_ne_ok _ _)
    · exact absurd rfl given

/-- A reading that ends well comes to its end, to a separator, or to something that is given as it
should be and is the first of its kind. -/
theorem finish_eq_ok_cases (ended : (of root extension false).finish arguments = .ok final) :
    arguments = [] ∧ final = of root extension false ∨
      (∃ behind, arguments = "--" :: behind ∧
        (of root extension true).finish behind = .ok final) ∨
      ∃ given : Given, ∃ rest, arguments = given.arguments ++ rest ∧ given.Sound ∧
        (root = none ∨ given.root? = none) ∧ (extension = none ∨ given.extension? = none) := by
  cases arguments with
  | nil => exact .inl ⟨rfl, (Except.ok.inj ended).symm⟩
  | cons argument arguments =>
    obtain ⟨next, one, rest⟩ := finish_cons_eq_ok.mp ended
    obtain ⟨rfl, rfl⟩ | ⟨value, rfl, added⟩ | ⟨_, waiting, _⟩ | ⟨plain, _, added⟩ :=
      add_cases rfl one
    · exact .inr (.inl ⟨arguments, rfl, rest⟩)
    · cases value with
      | some value =>
        cases extension with
        | some other => cases added
        | none =>
          have joined : "--extension" ++ ("=" ++ value) = "--extension=" ++ value := by
            rw [← String.append_assoc]
            rfl
          exact .inr (.inr ⟨.joined value, arguments, congrArg (· :: arguments) joined, trivial,
            .inr rfl, .inl rfl⟩)
      | none =>
        cases added
        obtain ⟨value, others, rfl, plain, rfl⟩ := waiting_eq_ok rest
        exact .inr (.inr ⟨.separate value, others, rfl, plain, .inr rfl, .inl rfl⟩)
    · cases waiting
    · cases root with
      | some other => cases added
      | none =>
        cases added
        by_cases named : argument = ""
        · subst named
          exact absurd rest ((stuck_addRoot extension false).finish_ne_ok _ _)
        · exact .inr (.inr ⟨.root argument, arguments, rfl, ⟨named, plain⟩, .inl rfl, .inr rfl⟩)

end Reading

/-! ## Wordings -/

namespace Wording

variable {root extension : Option String} {given : Given} {more : List Given}
  {behind : Option (Option String)}

theorem arguments_cons (given : Given) (more : List Given) (behind : Option (Option String)) :
    (Wording.mk (given :: more) behind).arguments =
      given.arguments ++ (Wording.mk more behind).arguments := by
  rw [arguments, List.flatMap_cons, List.append_assoc]
  rfl

theorem roots_cons (given : Given) (more : List Given) (behind : Option (Option String)) :
    (Wording.mk (given :: more) behind).roots =
      given.root?.toList ++ (Wording.mk more behind).roots := by
  cases given <;> rfl

theorem extensions_cons (given : Given) (more : List Given) (behind : Option (Option String)) :
    (Wording.mk (given :: more) behind).extensions =
      given.extension?.toList ++ (Wording.mk more behind).extensions := by
  cases given <;> rfl

/-- At most one thing is given in all if it is given before, next, or later. -/
theorem single_or {α : Type} (before next : Option α) (later : List α) :
    (next.toList ++ later).length ≤ 1 ∧ (before = none ∨ next.toList ++ later = []) ↔
      (before = none ∨ next = none) ∧ later.length ≤ 1 ∧ (before.or next = none ∨ later = []) := by
  cases before <;> cases next <;> cases later <;> simp

/-- What is given first follows what was given before, and what is given then follows both. -/
theorem follows_cons : (Wording.mk (given :: more) behind).Follows root extension ↔
    given.Sound ∧ (root = none ∨ given.root? = none) ∧
      (extension = none ∨ given.extension? = none) ∧
      (Wording.mk more behind).Follows (root.or given.root?) (extension.or given.extension?) := by
  have roots := single_or root given.root? (Wording.mk more behind).roots
  have extensions := single_or extension given.extension? (Wording.mk more behind).extensions
  rw [← roots_cons] at roots
  rw [← extensions_cons] at extensions
  constructor
  · rintro ⟨⟨sound, named, oneRoot, oneExtension⟩, noRoot, noExtension⟩
    obtain ⟨own, sound⟩ := List.forall_mem_cons.mp sound
    obtain ⟨free, oneRoot, noRoot⟩ := roots.mp ⟨oneRoot, noRoot⟩
    obtain ⟨free', oneExtension, noExtension⟩ := extensions.mp ⟨oneExtension, noExtension⟩
    exact ⟨own, free, free', ⟨sound, named, oneRoot, oneExtension⟩, noRoot, noExtension⟩
  · rintro ⟨own, free, free', ⟨sound, named, oneRoot, oneExtension⟩, noRoot, noExtension⟩
    obtain ⟨oneRoot, noRoot⟩ := roots.mpr ⟨free, oneRoot, noRoot⟩
    obtain ⟨oneExtension, noExtension⟩ := extensions.mpr ⟨free', oneExtension, noExtension⟩
    exact ⟨⟨List.forall_mem_cons.mpr ⟨own, sound⟩, named, oneRoot, oneExtension⟩, noRoot,
      noExtension⟩

/-- Arguments that are put together by the rules are read to their end. -/
theorem Follows.finish {wording : Wording} (follows : wording.Follows root extension) :
    ∃ final, (Reading.of root extension false).finish wording.arguments = .ok final ∧
      final.root = root.or wording.roots.head? ∧
      final.extension = extension.or wording.extensions.head? := by
  obtain ⟨given, behind⟩ := wording
  induction given generalizing root extension with
  | nil =>
    cases behind with
    | none =>
      exact ⟨Reading.of root extension false, rfl, Option.or_none.symm, Option.or_none.symm⟩
    | some behind =>
      have single : (Wording.mk [] (some behind)).roots = behind.toList := rfl
      refine ⟨Reading.of (root.or behind) extension true, ?_, ?_, Option.or_none.symm⟩
      · show (Reading.of root extension false).finish ("--" :: behind.toList) = _
        rw [Reading.finish_separator]
        refine Reading.finish_behind.mpr ⟨behind, rfl, ?_, ?_, rfl⟩
        · exact fun empty => follows.named (congrArg some empty)
        · have free := follows.noRoot
          rwa [single, Option.toList_eq_nil_iff] at free
      · rw [single, Option.head?_toList]
        rfl
  | cons given more ih =>
    obtain ⟨own, free, free', follows⟩ := follows_cons.mp follows
    obtain ⟨final, ended, root, extension⟩ := ih follows
    refine ⟨final, ?_, ?_, ?_⟩
    · rw [arguments_cons, Reading.finish_given own free free', ended]
    · rw [root, roots_cons, List.head?_append, Option.head?_toList, Option.or_assoc]
    · rw [extension, extensions_cons, List.head?_append, Option.head?_toList, Option.or_assoc]

/-- Arguments that are read to their end are put together by the rules. -/
theorem exists_follows {root extension : Option String} {arguments : List String} {final : Reading}
    (ended : (Reading.of root extension false).finish arguments = .ok final) :
    ∃ wording : Wording, wording.Follows root extension ∧ wording.arguments = arguments := by
  obtain ⟨rfl, _⟩ | ⟨rest, rfl, ended⟩ | ⟨given, rest, same, sound, free, free'⟩ :=
    Reading.finish_eq_ok_cases ended
  · exact ⟨⟨[], none⟩, ⟨⟨nofun, nofun, Nat.zero_le _, Nat.zero_le _⟩, .inr rfl, .inr rfl⟩, rfl⟩
  · obtain ⟨behind, rfl, named, free, _⟩ := Reading.finish_behind.mp ended
    refine ⟨⟨[], some behind⟩, ⟨⟨nofun, ?_, ?_, Nat.zero_le _⟩, ?_, .inr rfl⟩, rfl⟩
    · exact fun empty => named (Option.some.inj empty)
    · exact Option.length_toList_le
    · refine free.imp_right fun absent => ?_
      subst absent
      rfl
  · have shorter : rest.length < arguments.length := by
      rw [same, List.length_append]
      exact Nat.lt_add_of_pos_left (by cases given <;> exact Nat.succ_pos _)
    rw [same, Reading.finish_given sound free free'] at ended
    obtain ⟨⟨more, behind⟩, follows, others⟩ := exists_follows ended
    refine ⟨⟨given :: more, behind⟩, follows_cons.mpr ⟨sound, free, free', follows⟩, ?_⟩
    rw [arguments_cons, others, same]
termination_by arguments.length

end Wording

/-! ## What is accepted -/

/-- What is read is what is known in the end, with defaults for the rest. -/
theorem read_eq (arguments : List String) :
    read arguments = (Reading.start.finish arguments).map fun final =>
      ⟨⟨final.root.getD "."⟩, final.extension.getD "zig"⟩ := by
  rw [read, Reading.finish]
  cases arguments.foldlM Reading.add Reading.start with
  | error fault => rfl
  | ok reading =>
    show reading.settle >>= _ = reading.settle.map _
    cases reading.settle <;> rfl

/-- **What a scanner accepts.** Arguments are accepted if and only if they are put together by the
rules: at most one extension, in one argument or in two, at most one directory, and at most one
separator, which stands behind all but the directory. What is read then is the directory and the
extension that are given, or the defaults. In particular every directory with a name and every
extension can be given, whatever they look like. -/
theorem accepted_arguments :
    (∀ arguments wanted, read arguments = .ok wanted ↔
      ∃ wording : Wording, wording.Allowed ∧ wording.arguments = arguments ∧
        wording.wanted = wanted) ∧
    ∀ root extension, root ≠ "" →
      read ["--extension=" ++ extension, "--", root] = .ok ⟨⟨root⟩, extension⟩ := by
  have accepted (arguments : List String) (wanted : ScanArguments) :
      read arguments = .ok wanted ↔ ∃ wording : Wording, wording.Allowed ∧
        wording.arguments = arguments ∧ wording.wanted = wanted := by
    rw [read_eq]
    constructor
    · intro ended
      cases finished : Reading.start.finish arguments with
      | error fault =>
        rw [finished] at ended
        cases ended
      | ok final =>
        rw [finished] at ended
        obtain ⟨wording, follows, rfl⟩ := Wording.exists_follows finished
        obtain ⟨_, again, root, extension⟩ := follows.finish
        cases finished.symm.trans again
        refine ⟨wording, follows.toAllowed, rfl, ?_⟩
        rw [← Except.ok.inj ended]
        dsimp only
        rw [root, extension]
        rfl
    · rintro ⟨wording, allowed, rfl, rfl⟩
      obtain ⟨final, ended, root, extension⟩ :=
        Wording.Follows.finish ⟨allowed, .inl rfl, .inl rfl⟩
      have finished : Reading.start.finish wording.arguments = .ok final := ended
      rw [finished, Except.map, root, extension]
      rfl
  refine ⟨accepted, fun root extension named => ?_⟩
  refine (accepted _ _).mpr ⟨⟨[.joined extension], some (some root)⟩, ?_, rfl, rfl⟩
  exact ⟨List.forall_mem_singleton.mpr trivial, by simpa using named, Nat.le_refl 1, Nat.le_refl 1⟩

/-- A directory that is named like a separator, and an extension that is written like an option. -/
theorem accepted_arguments_hyphens :
    "--" ≠ "" ∧ read ["--extension=" ++ "--extension=-", "--", "--"] =
      .ok ⟨⟨"--"⟩, "--extension=-"⟩ := by
  have named : "--" ≠ "" := by decide
  exact ⟨named, accepted_arguments.2 "--" "--extension=-" named⟩

end BuildRunner.ScanArguments
