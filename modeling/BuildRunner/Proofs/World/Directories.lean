import BuildRunner.Proofs.Path.Parent
import BuildRunner.Proofs.World.Paths

/-!
# Making directories again

Making the directories of a path changes nothing if the path leads to a directory already, and after
it succeeded the path does. So what was made once need not be made again.

Nor does it help to try again after a refusal. An absolute path that leads to a directory, or to
where one can be made, has a directory above it. So once a path is barred, all paths below it are,
and the directories that were made before the refusal are not made a second time.
-/

namespace BuildRunner.World

variable {w w' : World} {p q : Path}

/-! ## The place of a directory -/

/-- The segments of a path that leads somewhere lead to a directory before the last of them, and
where this is a name there is an entry of this name. -/
theorem parent_of_locate {location : Location} {before : List RawText} {last : RawText}
    (located : w.locate p true = .ok location)
    (segments : Path.filled p.segments = before ++ [last]) :
    ∃ parent, w.locateSteps p.isAbsolute true (before.map Step.ofSegment) = .ok parent ∧
      w.files.isDirectoryAt parent = true ∧
      ∀ name, Step.ofSegment last = .name name → name.bytes.length ≤ nameLimit →
        ∃ node, w.files.get? (parent ++ [name]) = some node := by
  obtain ⟨_, located⟩ := locate_eq_ok.mp located
  obtain ⟨closing, steps⟩ : ∃ closing, p.steps =
      before.map Step.ofSegment ++ Step.ofSegment last :: closing := by
    rcases p.steps_eq with ⟨own, _⟩ | ⟨closed, _⟩
    · exact ⟨[], by rw [own, Path.segmentSteps, segments, List.map_append, List.map_singleton]⟩
    · exact ⟨[.stay], by rw [closed, Path.segmentSteps, segments, List.map_append,
        List.map_singleton, List.append_assoc, List.singleton_append]⟩
  rw [steps] at located
  obtain ⟨parent, fewer, up, directory, reached⟩ :=
    locateSteps_append_cases (List.cons_ne_nil _ _) located
  refine ⟨parent, up, directory, fun name step short => ?_⟩
  rw [step] at reached
  cases found : w.files.get? (parent ++ [name]) with
  | some node => exact ⟨node, rfl⟩
  | none =>
    have refused : w.files.advance true parent (.name name :: closing) = .refused .notFound := by
      simp [Directory.advance, Nat.not_lt.mpr short, found]
    rw [Directory.resolve, refused] at reached
    cases reached

/-- Where a directory stands, none can be made, and not because one above is missing. -/
theorem makeDirectory_of_isDirectory (stands : w.isDirectory p = true) :
    ∃ fault, w.makeDirectory p = .error fault ∧ fault ≠ .notFound := by
  obtain ⟨location, located, _⟩ := isDirectory_iff.mp stands
  obtain ⟨plain, _⟩ := locate_eq_ok.mp located
  unfold makeDirectory place
  simp only [plain, bind, Except.bind, pure, Except.pure, throw, throwThe, MonadExceptOf.throw]
  cases ends : (Path.filled p.segments).getLast? with
  | none => exact ⟨_, rfl, by simp⟩
  | some last =>
    obtain ⟨before, segments⟩ := List.getLast?_eq_some_iff.mp ends
    obtain ⟨parent, up, directory, entry⟩ := parent_of_locate located segments
    simp only [segments, List.dropLast_concat, up, directory, if_true]
    cases step : Step.ofSegment last with
    | stay => exact ⟨_, rfl, by simp⟩
    | up => exact ⟨_, rfl, by simp⟩
    | name name =>
      by_cases long : nameLimit < name.bytes.length
      · exact ⟨.nameTooLong, by simp [long], by simp⟩
      · obtain ⟨node, found⟩ := entry name step (Nat.le_of_not_lt long)
        exact ⟨.alreadyExists, by simp [long, found], by simp⟩

/-- A directory that was made is found at its path. -/
theorem isDirectory_of_makeDirectory (made : w.makeDirectory p = .ok w') :
    w'.isDirectory p = true := by
  have extended := makeDirectory_extends made
  obtain ⟨⟨location, old⟩, placed, made⟩ := bind_eq_ok.mp made
  cases old with
  | some node => cases made
  | none =>
    cases made
    obtain ⟨free, parent, name, rfl, directory, _⟩ := place_eq_ok placed
    have faces := Directory.face?_alter_directory directory free.symm
    have own := (faces (parent ++ [name])).trans (if_pos rfl)
    rcases extended.added _ _ own with before | ⟨_, q, mem, located⟩
    · rw [Directory.face?_eq_none_iff.mpr free.symm] at before
      cases before
    · cases List.mem_singleton.mp mem
      exact isDirectory_iff.mpr ⟨_, located, Directory.isDirectoryAt_iff_face?.mpr own⟩

/-! ## With the directories above -/

section Above

variable {parents : List Path}

/-- A directory that is there is not made. -/
theorem makeFirst_of_isDirectory (stands : w.isDirectory p = true) :
    w.makeFirst (p :: parents) = (w, none) := by
  obtain ⟨fault, refused, other⟩ := makeDirectory_of_isDirectory stands
  rw [makeFirst, refused]
  cases fault with
  | notFound => exact absurd rfl other
  | _ => simp [stands]

/-- Once the first of some directories was made, it is one. -/
theorem isDirectory_of_makeFirst (made : w.makeFirst (p :: parents) = (w', none)) :
    w'.isDirectory p = true := by
  -- a refusal counts for nothing only where the directory is there
  have forgiven {reached : World} {fault : Fault}
      (h : (reached, if reached.isDirectory p then none else some fault) = (w', none)) :
      w'.isDirectory p = true := by
    obtain ⟨rfl, kept⟩ := Prod.mk.inj h
    by_cases stands : reached.isDirectory p = true
    · exact stands
    · rw [if_neg stands] at kept
      cases kept
  rw [makeFirst] at made
  split at made
  · next own =>
    cases made
    exact isDirectory_of_makeDirectory own
  · split at made
    · cases made
    · split at made
      · next own =>
        cases made
        exact isDirectory_of_makeDirectory own
      · exact forgiven made
  · exact forgiven made

theorem ancestorsFrom_eq_cons (count : Nat) (p : Path) :
    ∃ above, Path.ancestorsFrom count p = p :: above := by
  cases count with
  | zero => exact ⟨[], rfl⟩
  | succ count =>
    rw [Path.ancestorsFrom]
    split
    · exact ⟨[], rfl⟩
    · exact ⟨_, rfl⟩

/-- Directories that are there are not made. -/
theorem makeDirectories_of_isDirectory (stands : w.isDirectory p = true) :
    w.makeDirectories p = (w, none) := by
  obtain ⟨above, ancestors⟩ := ancestorsFrom_eq_cons p.segments.length p
  rw [makeDirectories, Path.ancestors, ancestors, makeFirst_of_isDirectory stands]

/-- Once its directories were made, a path leads to one. -/
theorem isDirectory_of_makeDirectories (made : w.makeDirectories p = (w', none)) :
    w'.isDirectory p = true := by
  obtain ⟨above, ancestors⟩ := ancestorsFrom_eq_cons p.segments.length p
  rw [makeDirectories, Path.ancestors, ancestors] at made
  exact isDirectory_of_makeFirst made

end Above

/-! ## Where no directory can be had -/

/-- A path leads to no directory, and none can be made there. -/
structure Barred (w : World) (p : Path) : Prop where
  absent : w.isDirectory p = false
  refused : ∀ made, w.makeDirectory p ≠ .ok made

/-- The steps of a path lead to a directory if its plain ones do. -/
theorem isDirectory_of_plain (plain : badPath p = none) {location : Location}
    (reached : w.locateSteps p.isAbsolute true (Step.plain p.steps) = .ok location)
    (stands : w.files.isDirectoryAt location = true) : w.isDirectory p = true := by
  obtain ⟨here, start, reached⟩ := locateSteps_eq_ok.mp reached
  refine isDirectory_iff.mpr ⟨location, locate_eq_ok.mpr ⟨plain, ?_⟩, stands⟩
  exact locateSteps_eq_ok.mpr
    ⟨here, start, Directory.resolve_of_plain (isDirectoryAt_of_origin? start) reached stands⟩

/-- The plain steps of a path that leads to a directory, or to where one can be made, lead to a
directory before the last of them. -/
theorem locateSteps_plain_above {front : List Step} {last : Step}
    (free : w.isDirectory p = true ∨ ∃ made, w.makeDirectory p = .ok made)
    (steps : Step.plain p.steps = front ++ [last]) :
    badPath p = none ∧ ∃ above, w.locateSteps p.isAbsolute true front = .ok above ∧
      w.files.isDirectoryAt above = true := by
  rcases free with stands | ⟨made, own⟩
  · obtain ⟨location, located, _⟩ := isDirectory_iff.mp stands
    obtain ⟨plain, located⟩ := locate_eq_ok.mp located
    have reached := locateSteps_plain located
    rw [steps] at reached
    obtain ⟨above, _, up, stands, _⟩ := locateSteps_append_cases (List.cons_ne_nil _ _) reached
    exact ⟨plain, above, up, stands⟩
  · obtain ⟨⟨location, old⟩, placed, _⟩ := bind_eq_ok.mp own
    obtain ⟨plain, before, name, closing, above, own, ends, located, stands, _⟩ :=
      steps_of_place placed
    have split : Step.plain p.steps = Step.plain before ++ [.name name] := by
      rcases ends with rfl | rfl <;> simp [own, Step.plain]
    obtain ⟨same, _⟩ := List.append_inj' (steps.symm.trans split) rfl
    rw [same]
    exact ⟨plain, above, locateSteps_plain located, stands⟩

/-- What is above an absolute path that leads to a directory, or to where one can be made, is a
directory. -/
theorem isDirectory_parent (absolute : p.isAbsolute = true) (above : p.parent? = some q)
    (free : w.isDirectory p = true ∨ ∃ made, w.makeDirectory p = .ok made) :
    w.isDirectory q = true := by
  obtain ⟨absolute', ⟨name, named, components⟩, rest, text⟩ := Path.of_parent? absolute above
  have steps : Step.plain p.steps = Step.plain q.steps ++ [Step.ofSegment name] := by
    rw [Path.plain_steps, components, List.filterMap_append, ← Path.plain_steps]
    simp [Path.step?_componentOf named]
  obtain ⟨plain, location, reached, stands⟩ := locateSteps_plain_above free steps
  obtain ⟨noNul, _, short⟩ := badPath_eq_none.mp plain
  have own : badPath q = none := by
    refine badPath_eq_none.mpr ⟨fun nul => noNul ?_, Path.raw_ne_empty_of_isAbsolute absolute',
      Nat.lt_of_le_of_lt ?_ short⟩
    · rw [text]
      exact List.mem_append_left _ nul
    · rw [text, RawText.bytes_append, List.length_append]
      exact Nat.le_add_right _ _
  exact isDirectory_of_plain own (absolute'.trans absolute.symm ▸ reached) stands

/-- Below a barred path, absolute ones are barred. -/
theorem Barred.of_parent (absolute : p.isAbsolute = true) (above : p.parent? = some q)
    (barred : w.Barred q) : w.Barred p := by
  have closed (free : w.isDirectory p = true ∨ ∃ made, w.makeDirectory p = .ok made) : False := by
    have stands := isDirectory_parent absolute above free
    rw [barred.absent] at stands
    cases stands
  exact ⟨Bool.eq_false_iff.mpr fun stands => closed (.inl stands),
    fun made own => closed (.inr ⟨made, own⟩)⟩

/-- Where something is missing above a path, the path is barred. -/
theorem Barred.of_notFound (missing : w.makeDirectory p = .error .notFound) : w.Barred p := by
  refine ⟨Bool.eq_false_iff.mpr fun stands => ?_, fun made own => ?_⟩
  · obtain ⟨fault, refused, other⟩ := makeDirectory_of_isDirectory stands
    cases missing.symm.trans refused
    exact other rfl
  · cases missing.symm.trans own

/-! ## Trying again -/

section Again

variable {parents : List Path} {fault : Fault}

/-- How making the first of some directories can fail: at once, with those above it, or in spite of
them. -/
theorem makeFirst_eq_some_cases (h : w.makeFirst (p :: parents) = (w', some fault)) :
    w' = w ∧ w.Barred p ∨
      w.makeDirectory p = .error .notFound ∧ w.makeFirst parents = (w', some fault) ∨
        w.makeFirst parents = (w', none) ∧ w'.Barred p := by
  -- a refusal that counts leaves no directory at the path
  have barred {reached : World} {refused : Fault}
      (own : reached.makeDirectory p = .error refused)
      (h : (reached, if reached.isDirectory p then none else some refused) = (w', some fault)) :
      w' = reached ∧ reached.Barred p := by
    obtain ⟨rfl, kept⟩ := Prod.mk.inj h
    refine ⟨rfl, Bool.eq_false_iff.mpr fun stands => ?_, fun made other => ?_⟩
    · rw [if_pos stands] at kept
      cases kept
    · cases own.symm.trans other
  rw [makeFirst] at h
  split at h
  · cases h
  · next missing =>
    split at h
    · next reached refused others =>
      cases h
      exact .inr (.inl ⟨missing, others⟩)
    · next reached others =>
      split at h
      · cases h
      · next refused own =>
        obtain ⟨rfl, barred⟩ := barred own h
        exact .inr (.inr ⟨others, barred⟩)
  · next refused other own =>
    obtain ⟨rfl, barred⟩ := barred own h
    exact .inl ⟨rfl, barred⟩

/-- At a barred path nothing is made, if trying those above it makes nothing. -/
theorem makeFirst_of_barred (barred : w.Barred p)
    (others : ∃ refused, w.makeFirst parents = (w, refused)) :
    ∃ refused, w.makeFirst (p :: parents) = (w, some refused) := by
  obtain ⟨_ | refused, others⟩ := others <;>
    cases own : w.makeDirectory p with
    | ok made => exact absurd own (barred.refused made)
    | error fault => cases fault <;> simp [makeFirst, own, others, barred.absent]

/-- With nothing above it, a path that cannot be made leaves the world as it is. -/
theorem makeFirst_singleton_again (h : w.makeFirst [p] = (w', some fault)) :
    w'.Barred p ∧ ∃ refused, w'.makeFirst [p] = (w', some refused) := by
  rcases makeFirst_eq_some_cases h with ⟨rfl, barred⟩ | ⟨missing, others⟩ | ⟨others, _⟩
  · exact ⟨barred, fault, h⟩
  · cases others
    exact ⟨.of_notFound missing, _, h⟩
  · cases others

/-- Where making an absolute path with those above it failed, it fails again and makes nothing. -/
theorem makeFirst_again {count : Nat} (absolute : p.isAbsolute = true)
    (h : w.makeFirst (Path.ancestorsFrom count p) = (w', some fault)) :
    w'.Barred p ∧
      ∃ refused, w'.makeFirst (Path.ancestorsFrom count p) = (w', some refused) := by
  induction count generalizing p fault with
  | zero => exact makeFirst_singleton_again h
  | succ count ih =>
    rw [Path.ancestorsFrom] at h ⊢
    cases above : p.parent? with
    | none =>
      rw [above] at h
      exact makeFirst_singleton_again h
    | some q =>
      rw [above] at h
      obtain ⟨absolute', _, _⟩ := Path.of_parent? absolute above
      rcases makeFirst_eq_some_cases h with ⟨rfl, barred⟩ | ⟨_, others⟩ | ⟨others, barred⟩
      · exact ⟨barred, fault, h⟩
      · obtain ⟨barred, refused, again⟩ := ih absolute' others
        have own := barred.of_parent absolute above
        exact ⟨own, makeFirst_of_barred own ⟨_, again⟩⟩
      · -- what was made above is there now and is not made again
        obtain ⟨further, ancestors⟩ := ancestorsFrom_eq_cons count q
        rw [ancestors] at others
        have stands := isDirectory_of_makeFirst others
        refine ⟨barred, makeFirst_of_barred barred ⟨none, ?_⟩⟩
        rw [ancestors, makeFirst_of_isDirectory stands]

/-- Where making the directories of an absolute path failed, it fails again and makes nothing. -/
theorem makeDirectories_again (absolute : p.isAbsolute = true)
    (h : w.makeDirectories p = (w', some fault)) :
    w'.Barred p ∧ ∃ refused, w'.makeDirectories p = (w', some refused) :=
  makeFirst_again absolute h

end Again

end BuildRunner.World
