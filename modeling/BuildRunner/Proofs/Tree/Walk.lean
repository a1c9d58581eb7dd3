import BuildRunner.Proofs.Text.Raw
import BuildRunner.Proofs.Tree.WellFormed
import BuildRunner.Tree.Walk

/-!
# What a walk visits and in which order

A walk gives paths as texts. Here it is followed as locations: `places` are the locations below a
node in the order of the walk, each with the node that stands there, and a walk is these places
written as paths. What a walk visits is then a matter of reading at locations, and its order one of
comparing lists of names.

Both are proved by recursion on the tree. Soundness and completeness need that a name is listed
once, since reading finds the first entry of a name only. Order needs the same, since names that are
equal are not strictly ordered.
-/

namespace BuildRunner

/-- A location comes before another when it does name by name, each name compared by its bytes. -/
def Location.Before (a b : Location) : Prop :=
  a.map RawText.bytes < b.map RawText.bytes

namespace Location

theorem before_cons {name : RawText} {a b : Location} (h : Before a b) :
    Before (name :: a) (name :: b) :=
  List.cons_lt_cons_self.mpr h

theorem before_of_name {first second : RawText} (le : Text.leBytes first.bytes second.bytes = true)
    (ne : first ≠ second) (a b : Location) : Before (first :: a) (second :: b) :=
  List.Lex.rel (Text.lt_of_leBytes le (mt RawText.ext ne))

theorem before_irrefl (a : Location) : ¬Before a a :=
  List.lt_irrefl _

end Location

/-! ## Groups in the order of their names -/

section InNameOrder

variable {α β : Type} {groups : List (RawText × List α)}

/-- Ordering groups keeps all members. -/
theorem mem_inNameOrder {x : α} : x ∈ inNameOrder groups ↔ ∃ group ∈ groups, x ∈ group.2 := by
  simp [inNameOrder, List.mem_flatMap]

/-- Ordering does not look at the members. -/
theorem map_inNameOrder (f : α → β) :
    (inNameOrder groups).map f =
      inNameOrder (groups.map fun group => (group.1, group.2.map f)) := by
  have sorted : (groups.mergeSort fun a b => Text.leBytes a.1.bytes b.1.bytes).map
      (fun group => (group.1, group.2.map f)) =
        (groups.map fun group => (group.1, group.2.map f)).mergeSort
          fun a b => Text.leBytes a.1.bytes b.1.bytes :=
    List.map_mergeSort fun _ _ _ _ => rfl
  rw [inNameOrder, inNameOrder, ← sorted, List.map_flatMap, List.flatMap_map]

/-- Members are ordered as they are within the groups, and across groups as the names are. -/
theorem pairwise_inNameOrder {R : α → α → Prop} (names : (groups.map Prod.fst).Nodup)
    (within : ∀ group ∈ groups, group.2.Pairwise R)
    (across : ∀ a ∈ groups, ∀ b ∈ groups, Text.leBytes a.1.bytes b.1.bytes = true → a.1 ≠ b.1 →
      ∀ x ∈ a.2, ∀ y ∈ b.2, R x y) :
    (inNameOrder groups).Pairwise R := by
  have perm := List.mergeSort_perm groups fun a b => Text.leBytes a.1.bytes b.1.bytes
  have sorted : (groups.mergeSort fun a b => Text.leBytes a.1.bytes b.1.bytes).Pairwise
      fun a b => Text.leBytes a.1.bytes b.1.bytes = true := by
    apply List.pairwise_mergeSort
    · exact fun a b c => Text.leBytes_trans
    · exact fun a b => Text.leBytes_total a.1.bytes b.1.bytes
  have distinct : (groups.mergeSort fun a b => Text.leBytes a.1.bytes b.1.bytes).Pairwise
      fun a b => a.1 ≠ b.1 :=
    List.pairwise_map.mp ((perm.map Prod.fst).nodup_iff.mpr names)
  refine List.pairwise_flatMap.mpr ⟨fun group mem => within group (perm.mem_iff.mp mem), ?_⟩
  refine (sorted.and distinct).imp_of_mem ?_
  rintro a b hb ha ⟨le, ne⟩
  exact across a (perm.mem_iff.mp hb) b (perm.mem_iff.mp ha) le ne

end InNameOrder

/-! ## A walk as locations -/

mutual

/-- The locations at and below a node in the order of the walk, with what stands there. -/
def Node.places : Node → List (Location × Node)
  | .directory entries => ([], .directory entries) :: inNameOrder entries.placesEach
  | .file content executable => [([], .file content executable)]
  | .link target => [([], .link target)]

/-- The locations at and below each entry of a directory, under the entry's name. -/
def Directory.placesEach : Directory → List (RawText × List (Location × Node))
  | .empty => []
  | .entry name node rest =>
    (name, node.places.map fun place => (name :: place.1, place.2)) :: rest.placesEach

end

/-- The locations below a directory in the order of the walk, with what stands there. -/
def Directory.places (d : Directory) : List (Location × Node) :=
  inNameOrder d.placesEach

/-- A place as a walk from a path visits it. The start has a name of its own. -/
def Visit.ofPlace (path : Path) (name : RawText) (place : Location × Node) : Visit :=
  ⟨path.descend place.1, place.1.getLastD name, place.2.kind⟩

/-- Going down by one more name is a walk from one path further. -/
theorem Visit.ofPlace_cons (path : Path) (start name : RawText) (place : Location × Node) :
    Visit.ofPlace path start (name :: place.1, place.2) =
      Visit.ofPlace (path.join ⟨name⟩) name place := by
  rw [ofPlace, ofPlace, Path.descend_cons, List.getLastD_cons]

mutual

/-- The walk of a node visits its places. -/
theorem Node.walk_eq (path : Path) (name : RawText) :
    ∀ node : Node, node.walk path name = node.places.map (Visit.ofPlace path name)
  | .directory entries => by
    rw [Node.walk, Node.places, List.map_cons, map_inNameOrder, entries.walkEach_eq path name]
    rfl
  | .file .. => rfl
  | .link _ => rfl

/-- The walk of each entry visits the places of that entry. -/
theorem Directory.walkEach_eq (path : Path) (start : RawText) :
    ∀ d : Directory, d.walkEach path =
      d.placesEach.map fun group => (group.1, group.2.map (Visit.ofPlace path start))
  | .empty => rfl
  | .entry name node rest => by
    rw [Directory.walkEach, Directory.placesEach, List.map_cons, rest.walkEach_eq path start,
      node.walk_eq (path.join ⟨name⟩) name, List.map_map]
    simp only [Function.comp_def, Visit.ofPlace_cons]

end

/-- The walk of a directory visits its places. -/
theorem Directory.walk_eq (d : Directory) (path : Path) (start : RawText) :
    d.walk path = d.places.map (Visit.ofPlace path start) := by
  rw [walk, places, map_inNameOrder, d.walkEach_eq path start]

/-! ## What is visited -/

/-- The groups of places are those of the entries. -/
theorem Directory.placesEach_eq : ∀ d : Directory, d.placesEach =
    d.toList.map fun entry =>
      (entry.1, entry.2.places.map fun place => (entry.1 :: place.1, place.2))
  | .empty => rfl
  | .entry name node rest => by
    rw [placesEach, toList, List.map_cons, rest.placesEach_eq]

/-- The directory itself is none of the places below it. -/
theorem Directory.nil_notMem_places (d : Directory) (found : Node) : ([], found) ∉ d.places := by
  rw [places, mem_inNameOrder, placesEach_eq]
  rintro ⟨group, mem, place⟩
  obtain ⟨entry, _, rfl⟩ := List.mem_map.mp mem
  obtain ⟨below, _, same⟩ := List.mem_map.mp place
  cases same

/-- The places below a directory under a name are those of the entries of this name. -/
theorem Directory.cons_mem_places {d : Directory} {name : RawText} {below : Location}
    {found : Node} :
    (name :: below, found) ∈ d.places ↔
      ∃ node, (name, node) ∈ d.toList ∧ (below, found) ∈ node.places := by
  rw [places, mem_inNameOrder, placesEach_eq]
  constructor
  · rintro ⟨group, mem, place⟩
    obtain ⟨⟨other, node⟩, entry, rfl⟩ := List.mem_map.mp mem
    obtain ⟨⟨rest, found⟩, inside, same⟩ := List.mem_map.mp place
    cases same
    exact ⟨node, entry, inside⟩
  · rintro ⟨node, entry, inside⟩
    exact ⟨_, List.mem_map_of_mem entry, List.mem_map_of_mem inside⟩

/-- The places of a well-formed node are the locations it can be read at. -/
theorem Node.mem_places (node : Node) (wf : node.WellFormed) (below : Location) (found : Node) :
    (below, found) ∈ node.places ↔ node.get? below = some found := by
  induction node using Node.induction generalizing below with
  | file content executable => simp [places, Node.get?, eq_comm]
  | link target => simp [places, Node.get?, eq_comm]
  | directory entries ih =>
    rw [places, List.mem_cons, ← Directory.places, Node.get?]
    cases below with
    | nil =>
      have itself := entries.nil_notMem_places found
      simp [itself, eq_comm]
    | cons name below =>
      have deeper : (name :: below, found) ≠ ([], .directory entries) := by simp
      rw [Directory.cons_mem_places, Directory.get?_cons, Option.bind_eq_some_iff]
      simp only [deeper, false_or]
      refine exists_congr fun inner => ?_
      rw [← Directory.mem_toList_iff wf]
      refine and_congr_right fun entry => ?_
      exact ih (name, inner) entry (Directory.WellFormed.of_mem wf entry).2 below

/-- The places below a well-formed directory are the locations behind it that it can be read at. -/
theorem Directory.mem_places {d : Directory} (wf : d.WellFormed) {below : Location} {found : Node} :
    (below, found) ∈ d.places ↔ below ≠ [] ∧ d.get? below = some found := by
  cases below with
  | nil => simp [d.nil_notMem_places found]
  | cons name below =>
    have whole := Node.mem_places (.directory d) wf (name :: below) found
    rw [Node.places, List.mem_cons, ← places, Node.get?] at whole
    simpa using whole

/-! ## In which order -/

/-- The places of a well-formed node are in strict order. -/
theorem Node.pairwise_places (node : Node) (wf : node.WellFormed) :
    node.places.Pairwise fun a b => Location.Before a.1 b.1 := by
  induction node using Node.induction with
  | file content executable => exact List.pairwise_singleton _ _
  | link target => exact List.pairwise_singleton _ _
  | directory entries ih =>
    rw [places, List.pairwise_cons]
    refine ⟨?_, ?_⟩
    · -- a directory is visited before all below it
      rintro ⟨location, found⟩ mem
      cases location with
      | nil => exact absurd mem (entries.nil_notMem_places found)
      | cons name below => exact List.nil_lt_cons _ _
    · apply pairwise_inNameOrder
      · have names : entries.placesEach.map Prod.fst = entries.names := by
          rw [Directory.placesEach_eq, List.map_map]
          rfl
        rw [names]
        exact Directory.WellFormed.nodup_names wf
      · intro group mem
        rw [Directory.placesEach_eq] at mem
        obtain ⟨entry, hentry, rfl⟩ := List.mem_map.mp mem
        have inside := ih entry hentry (Directory.WellFormed.of_mem wf hentry).2
        exact List.pairwise_map.mpr (inside.imp Location.before_cons)
      · intro a ha b hb le ne x hx y hy
        rw [Directory.placesEach_eq] at ha hb
        obtain ⟨first, _, rfl⟩ := List.mem_map.mp ha
        obtain ⟨second, _, rfl⟩ := List.mem_map.mp hb
        obtain ⟨_, _, rfl⟩ := List.mem_map.mp hx
        obtain ⟨_, _, rfl⟩ := List.mem_map.mp hy
        exact Location.before_of_name le ne _ _

/-- The places below a well-formed directory are in strict order. -/
theorem Directory.pairwise_places {d : Directory} (wf : d.WellFormed) :
    d.places.Pairwise fun a b => Location.Before a.1 b.1 := by
  have whole := Node.pairwise_places (.directory d) wf
  rw [Node.places, List.pairwise_cons] at whole
  exact whole.2

end BuildRunner
