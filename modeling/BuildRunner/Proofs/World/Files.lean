import BuildRunner.Proofs.World.Paths
import Mathlib.Logic.Relation

/-!
# Files written into a tree

A file is written where a path leads, or at the free place it stands for. Where the path ends in a
link, the link is followed, and the file may be any file of the tree or a new one anywhere in it. If
there is no link in the place of a path, then the file is written in this very place: the entry of
the last name of the path in the directory that the rest of it leads to. There it takes the place of
a file, if there is one, and nothing else in the tree is touched. So all that can be seen of the
tree afterwards was there before or is one of the files.

A file leads nowhere. So paths that lead to a directory afterwards have led to it before, paths
stand for the places they have stood for, and no directory holds more than it did, the files apart.
-/

namespace BuildRunner

variable {names : List RawText} {name : RawText} {location : Location}

/-! ## Trees -/

namespace Directory

variable {d d' : Directory}

/-- From one tree to another only files were put, each under one of some names. -/
def Fills (names : List RawText) (d d' : Directory) : Prop :=
  ∀ location, d'.face? location = d.face? location ∨
    (∃ name ∈ names, location.getLast? = some name) ∧
      ∃ content executable, d'.face? location = some (.file content executable)

namespace Fills

theorem refl (names : List RawText) (d : Directory) : Fills names d d :=
  fun _ => .inl rfl

theorem trans {d'' : Directory} (h : Fills names d d') (h' : Fills names d' d'') :
    Fills names d d'' := by
  intro location
  rcases h' location with same | put
  · rw [same]
    exact h location
  · exact .inr put

theorem mono {more : List RawText} (h : Fills names d d') (all : names ⊆ more) :
    Fills more d d' :=
  fun location => (h location).imp_right fun ⟨⟨name, mem, last⟩, file⟩ =>
    ⟨⟨name, all mem, last⟩, file⟩

/-- What has another name is as it was. -/
theorem face?_eq (h : Fills names d d') (other : ∀ name ∈ names, location.getLast? ≠ some name) :
    d'.face? location = d.face? location := by
  rcases h location with same | ⟨⟨name, mem, last⟩, _⟩
  · exact same
  · exact absurd last (other name mem)

/-- What is no file is as it was. -/
theorem face?_eq_some {face : Face} (h : Fills names d d')
    (other : ∀ content executable, face ≠ .file content executable)
    (found : d'.face? location = some face) : d.face? location = some face := by
  rcases h location with same | ⟨_, content, executable, file⟩
  · rw [← same, found]
  · exact absurd (Option.some.inj (found.symm.trans file)) (other content executable)

theorem exists_directory {sub : Directory} (h : Fills names d d')
    (found : d'.get? location = some (.directory sub)) :
    ∃ sub', d.get? location = some (.directory sub') :=
  face?_eq_directory_iff.mp
    (h.face?_eq_some (by simp) (face?_eq_directory_iff.mpr ⟨sub, found⟩))

theorem isDirectoryAt (h : Fills names d d') (stands : d'.isDirectoryAt location = true) :
    d.isDirectoryAt location = true :=
  isDirectoryAt_iff_face?.mpr (h.face?_eq_some (by simp) (isDirectoryAt_iff_face?.mp stands))

theorem get?_link {target : RawText} (h : Fills names d d')
    (found : d'.get? location = some (.link target)) : d.get? location = some (.link target) :=
  get?_of_face? (h.face?_eq_some (by simp [Node.face]) (by rw [face?, found, Option.map_some]))
    (by simp [Node.kind])

/-- In a directory that is still there only files were put. -/
theorem below {sub sub' : Directory} (h : Fills names d d')
    (found : d.get? location = some (.directory sub))
    (found' : d'.get? location = some (.directory sub')) : Fills names sub sub' := by
  intro rest
  by_cases itself : rest = []
  · subst itself
    exact .inl (by rw [face?_nil, face?_nil])
  · have face : d.face? (location ++ rest) = sub.face? rest := by
      rw [face?, get?_append found, face?]
    have face' : d'.face? (location ++ rest) = sub'.face? rest := by
      rw [face?, get?_append found', face?]
    have last : (location ++ rest).getLast? = rest.getLast? := by
      rw [List.getLast?_append, List.getLast?_eq_some_getLast itself, Option.some_or]
    rw [← face, ← face', ← last]
    exact h (location ++ rest)

/-! ### Following paths -/

/-- Steps that are not refused and do not end at a file went the same way before. -/
theorem advance_eq (h : Fills names d d') {follow : Bool} {here : Location} {steps : List Step}
    (taken : ∀ fault, d'.advance follow here steps ≠ .refused fault)
    (stands : ∀ location, d'.advance follow here steps = .arrived location →
      d'.isDirectoryAt location = true) :
    d.advance follow here steps = d'.advance follow here steps := by
  fun_induction advance d' follow here steps with
  | case1 here => rw [advance]
  | case2 here rest ih => rw [advance, ih taken stands]
  | case3 here rest ih => rw [advance, ih taken stands]
  | case4 here name rest long => exact absurd rfl (taken _)
  | case5 here name rest short there missing => exact absurd rfl (taken _)
  | case6 here name rest short there sub found ih =>
    obtain ⟨sub', found'⟩ := h.exists_directory found
    simp only [advance, short, there, found', if_false, ih taken stands]
  | case7 here name short there content executable found =>
    have directory := stands there rfl
    simp [Directory.isDirectoryAt, found, Node.kind] at directory
  | case8 => exact absurd rfl (taken _)
  | case9 here name rest short there target found unfollowed =>
    have directory := stands there rfl
    simp [Directory.isDirectoryAt, found, Node.kind] at directory
  | case10 here name rest short there target found followed =>
    have found' := h.get?_link found
    simp only [advance, short, there, found', if_false, followed, Bool.false_eq_true]

/-- Steps that lead to a directory have led to it before. -/
theorem resolve_eq_ok (h : Fills names d d') {follow : Bool} {links : Nat} {here : Location}
    {steps : List Step} (reached : d'.resolve follow links here steps = .ok location)
    (stands : d'.isDirectoryAt location = true) :
    d.resolve follow links here steps = .ok location := by
  rcases resolve_eq_ok_cases reached with arrived | ⟨fewer, base, target, rest, rfl, met, further⟩
  · have same : d.advance follow here steps = d'.advance follow here steps :=
      h.advance_eq (by simp [arrived]) (by rw [arrived]; rintro _ ⟨⟩; exact stands)
    exact resolve_of_arrived (same.trans arrived)
  · have same : d.advance follow here steps = d'.advance follow here steps :=
      h.advance_eq (by simp [met]) (by simp [met])
    rw [resolve_of_link (same.trans met)]
    exact h.resolve_eq_ok further stands
termination_by links

end Fills

end Directory

/-! ## Worlds -/

namespace World

variable {w w' : World} {p : Path}

/-- From one world to another only files were put, each under one of some names. -/
structure Fills (names : List RawText) (w w' : World) : Prop where
  files : w.files.Fills names w'.files
  workingDirectory : w'.workingDirectory = w.workingDirectory

namespace Fills

theorem refl (names : List RawText) (w : World) : Fills names w w :=
  ⟨.refl names w.files, rfl⟩

theorem trans {w'' : World} (h : Fills names w w') (h' : Fills names w' w'') :
    Fills names w w'' :=
  ⟨h.files.trans h'.files, h'.workingDirectory.trans h.workingDirectory⟩

theorem mono {more : List RawText} (h : Fills names w w') (all : names ⊆ more) : Fills more w w' :=
  ⟨h.files.mono all, h.workingDirectory⟩

/-- Steps that lead to a directory have led to it before. -/
theorem locateSteps_eq_ok {absolute : Bool} {steps : List Step} (h : Fills names w w')
    (located : w'.locateSteps absolute true steps = .ok location)
    (stands : w'.files.isDirectoryAt location = true) :
    w.locateSteps absolute true steps = .ok location := by
  obtain ⟨here, start, reached⟩ := World.locateSteps_eq_ok.mp located
  exact World.locateSteps_eq_ok.mpr ⟨here,
    origin?_of_workingDirectory h.workingDirectory.symm h.files.isDirectoryAt start,
    h.files.resolve_eq_ok reached stands⟩

/-- A path that leads to a directory has led to it before, and there only files were put. -/
theorem node_directory {entries' : Directory} (h : Fills names w w')
    (found' : w'.node p true = .ok (.directory entries')) :
    ∃ entries, w.node p true = .ok (.directory entries) ∧ entries.Fills names entries' := by
  obtain ⟨location, located, found'⟩ := node_eq_ok.mp found'
  obtain ⟨plain, located⟩ := locate_eq_ok.mp located
  have stands := Directory.isDirectoryAt_iff.mpr ⟨entries', found'⟩
  obtain ⟨entries, found⟩ := h.files.exists_directory found'
  exact ⟨entries, node_eq_ok.mpr ⟨location,
    locate_eq_ok.mpr ⟨plain, h.locateSteps_eq_ok located stands⟩, found⟩,
    h.files.below found found'⟩

/-- A path that has a place has stood for this place before. -/
theorem place_eq_ok {old : Option Node} (h : Fills names w w')
    (placed : w'.place p = .ok (location, old)) :
    w.place p = .ok (location, w.files.get? location) := by
  obtain ⟨plain, before, last, parent, name, segments, step, short, located, stands, rfl, _⟩ :=
    segments_of_place placed
  rw [place_of_segments plain segments step (h.locateSteps_eq_ok located stands)
    (h.files.isDirectoryAt stands), if_neg (Nat.not_lt.mpr short)]

end Fills

/-! ## Places without links -/

/-- There is no link in the place of any of some paths. -/
def Unlinked (w : World) (paths : List Path) : Prop :=
  ∀ p ∈ paths, ∀ location target, w.place p ≠ .ok (location, some (.link target))

variable {paths : List Path}

theorem Fills.unlinked (h : Fills names w w') (free : w.Unlinked paths) : w'.Unlinked paths := by
  intro p mem location target placed
  obtain ⟨found, _⟩ := World.place_eq_ok placed
  have before := h.place_eq_ok placed
  rw [h.files.get?_link found.symm] at before
  exact free p mem location target before

/-- The place of a name joined to a path is an entry of this name. -/
theorem getLast?_of_place {old : Option Node} (named : IsSegment name)
    (h : w.place (p.join ⟨name⟩) = .ok (location, old)) : location.getLast? = some name := by
  obtain ⟨_, before, last, parent, own, segments, step, _, _, _, rfl, _⟩ := segments_of_place h
  obtain ⟨front, whole⟩ := List.getLast?_eq_some_iff.mp (p.getLast?_segments_join named)
  rw [whole, Path.filled_append, Path.filled_singleton named.ne_empty] at segments
  obtain rfl : name = last := List.singleton_inj.mp (List.append_inj' segments rfl).2
  rw [named.ofSegment] at step
  cases step
  exact List.getLast?_concat

/-- What a name joined to a path leads to, a link in its place not followed, is what stands in its
place. -/
theorem place_of_locate (named : IsSegment name)
    (located : w.locate (p.join ⟨name⟩) false = .ok location) :
    w.place (p.join ⟨name⟩) = .ok (location, w.files.get? location) := by
  obtain ⟨plain, located⟩ := locate_eq_ok.mp located
  have ends := p.getLast?_segments_join named
  obtain ⟨front, whole⟩ := List.getLast?_eq_some_iff.mp ends
  have segments : Path.filled (p.join ⟨name⟩).segments = Path.filled front ++ [name] := by
    rw [whole, Path.filled_append, Path.filled_singleton named.ne_empty]
  have steps : (p.join ⟨name⟩).steps =
      (Path.filled front).map Step.ofSegment ++ [.name name] := by
    rcases (p.join ⟨name⟩).steps_eq with ⟨own, _⟩ | ⟨closed, _⟩
    · rw [own, Path.segmentSteps, segments, List.map_append, List.map_singleton, named.ofSegment]
    · have moves := Path.getLast?_steps ends named.not_filler
      rw [closed, List.getLast?_concat] at moves
      exact absurd rfl moves
  rw [steps] at located
  obtain ⟨parent, fewer, up, directory, further⟩ :=
    locateSteps_append_cases (List.cons_ne_nil _ _) located
  obtain ⟨short, rfl⟩ := Directory.eq_of_resolve_name further
  rw [place_of_segments plain segments named.ofSegment up directory,
    if_neg (Nat.not_lt.mpr short)]

/-! ## Writing files -/

theorem target_of_locate (links : Nat) (located : w.locate p true = .ok location) :
    w.target links p = .ok location := by
  rw [target, located]

theorem target_of_free (links : Nat) (missing : w.locate p true = .error .notFound)
    (placed : w.place p = .ok (location, none)) : w.target links p = .ok location := by
  rw [target, missing, placed]
  rfl

/-- A link in the place of a path is followed when it leads nowhere, too. -/
theorem target_of_link {linked : RawText} (links : Nat)
    (missing : w.locate p true = .error .notFound)
    (placed : w.place p = .ok (location, some (.link linked))) :
    w.target (links + 1) p = w.target links ((pathOf location.dropLast).join ⟨linked⟩) := by
  rw [target, missing, placed]
  rfl

/-- Without a link in the place of a path, a file is written in this place. -/
theorem place_of_target {links : Nat} (named : IsSegment name)
    (free : w.Unlinked [p.join ⟨name⟩]) (h : w.target links (p.join ⟨name⟩) = .ok location) :
    w.place (p.join ⟨name⟩) = .ok (location, w.files.get? location) := by
  have unlinked := free _ (List.mem_singleton_self _)
  unfold target at h
  split at h
  · next located =>
    cases h
    rcases w.locate_follow (p.join ⟨name⟩) with same | ⟨link, linked, located', found⟩
    · exact place_of_locate named (same ▸ located)
    · have placed := place_of_locate named located'
      rw [found] at placed
      exact absurd placed (unlinked link linked)
  · obtain ⟨⟨spot, old⟩, placed, h⟩ := bind_eq_ok.mp h
    obtain ⟨found, _⟩ := World.place_eq_ok placed
    rcases old with _ | ⟨content, executable⟩ | linked | entries
    · cases h
      rw [placed, found]
    · cases h
      rw [placed, found]
    · exact absurd placed (unlinked spot linked)
    · cases h
      rw [placed, found]
  · cases h

/-- A file put in a place where there is no directory is all that is put. -/
theorem fills_put {old : Option Node} {content : ByteArray} {executable : Bool}
    (named : IsSegment name) (placed : w.place (p.join ⟨name⟩) = .ok (location, old))
    (leaf : ∀ entries, old ≠ some (.directory entries)) :
    Fills [name] w
      (w.withFiles (w.files.alter (fun _ => some (.file content executable)) location)) := by
  have last := getLast?_of_place named placed
  obtain ⟨found, parent, entry, rfl, stands, _⟩ := World.place_eq_ok placed
  subst found
  refine ⟨fun other => ?_, rfl⟩
  have bare (below : Location) (more : below ≠ []) :
      (Node.file content executable).get? below = none := if_neg more
  have faces := Directory.face?_alter_leaf stands bare leaf other
  by_cases own : other = parent ++ [entry]
  · rw [if_pos own] at faces
    exact .inr ⟨⟨name, List.mem_singleton_self name, own ▸ last⟩, content, executable, faces⟩
  · rw [if_neg own] at faces
    exact .inl faces

/-- Writing to a path without a link in its place puts a file of its last name. -/
theorem fills_of_write {content : ByteArray} {executable : Bool} (named : IsSegment name)
    (free : w.Unlinked [p.join ⟨name⟩])
    (h : w.write (p.join ⟨name⟩) content executable = .ok w') : Fills [name] w w' := by
  unfold write at h
  split at h
  · cases h
  · obtain ⟨location, located, h⟩ := bind_eq_ok.mp h
    have placed := place_of_target named free located
    split at h
    · cases h
    · next content' old found =>
      cases h
      exact fills_put named placed (by simp [found])
    · next other _ =>
      cases h
      exact fills_put named placed fun entries found => other entries found

/-- Files are written to some paths, in any order and any number of times. -/
def WritesEach (paths : List Path) : World → World → Prop :=
  Relation.ReflTransGen fun w w' =>
    ∃ p ∈ paths, ∃ content executable, w.write p content executable = .ok w'

theorem WritesEach.wellFormed (wf : w.files.WellFormed) (h : WritesEach paths w w') :
    w'.files.WellFormed := by
  induction h with
  | refl => exact wf
  | tail _ written ih =>
    obtain ⟨p, _, content, executable, written⟩ := written
    exact write_wellFormed ih written

/-- Whatever is written to paths that end in some names, only files of these names are put, if at
first there are no links in the places of the paths. -/
theorem WritesEach.fills (free : w.Unlinked paths)
    (named : ∀ p ∈ paths, ∃ (q : Path) (name : RawText), p = q.join ⟨name⟩ ∧ IsSegment name ∧
      name ∈ names)
    (h : WritesEach paths w w') : Fills names w w' := by
  induction h with
  | refl => exact .refl names w
  | tail _ written ih =>
    obtain ⟨p, mem, content, executable, written⟩ := written
    obtain ⟨q, name, rfl, isName, own⟩ := named p mem
    have single : World.Unlinked _ [q.join ⟨name⟩] := fun p one =>
      List.mem_singleton.mp one ▸ ih.unlinked free _ mem
    have put := fills_of_write isName single written
    exact ih.trans (put.mono (List.cons_subset.mpr ⟨own, List.nil_subset _⟩))

end World

end BuildRunner
