import BuildRunner.Proofs.Path.Components
import BuildRunner.Tree.Basic

/-!
# Well-formed trees

A tree as a file system holds it: each directory lists a name once, and lists only names that an
entry can have. The type of directories allows more, so this is a predicate on them. It is what
makes the list of entries a table: to look a name up and to list it are then the same.

Facts about all nodes are proved by `Node.induction`, which gives the fact for the entries of a
directory and leaves the shape of the list of entries out.
-/

namespace BuildRunner

/-! ## Induction over a tree -/

mutual

/-- What holds of files and links, and of a directory when it holds of its entries, holds of every
node. -/
theorem Node.induction {P : Node → Prop}
    (file : ∀ content executable, P (.file content executable)) (link : ∀ target, P (.link target))
    (directory : ∀ entries : Directory, (∀ entry ∈ entries.toList, P entry.2) →
      P (.directory entries)) : ∀ node, P node
  | .file content executable => file content executable
  | .link target => link target
  | .directory entries =>
    directory entries (entries.forall_entries file link directory)

/-- The same for the entries of a directory. -/
theorem Directory.forall_entries {P : Node → Prop}
    (file : ∀ content executable, P (.file content executable)) (link : ∀ target, P (.link target))
    (directory : ∀ entries : Directory, (∀ entry ∈ entries.toList, P entry.2) →
      P (.directory entries)) : ∀ d : Directory, ∀ entry ∈ d.toList, P entry.2
  | .empty => fun _ mem => absurd mem List.not_mem_nil
  | .entry _ node rest => List.forall_mem_cons.mpr
      ⟨node.induction file link directory, rest.forall_entries file link directory⟩

end

/-! ## Well-formedness -/

mutual

/-- Each directory at and below a node lists a name once, and only names that an entry can have. -/
def Node.WellFormed : Node → Prop
  | .directory entries => entries.WellFormed
  | .file .. => True
  | .link _ => True

/-- A directory and all those below it list a name once, and only names that an entry can have. -/
def Directory.WellFormed : Directory → Prop
  | .empty => True
  | .entry name node rest =>
    IsName name ∧ name ∉ rest.names ∧ node.WellFormed ∧ rest.WellFormed

end

mutual

/-- Whether a node is well formed can be computed. -/
def Node.decideWellFormed : (node : Node) → Decidable node.WellFormed
  | .directory entries => entries.decideWellFormed
  | .file .. => isTrue trivial
  | .link _ => isTrue trivial

/-- Whether a directory is well formed can be computed. -/
def Directory.decideWellFormed : (d : Directory) → Decidable d.WellFormed
  | .empty => isTrue trivial
  | .entry name node rest =>
    haveI := node.decideWellFormed
    haveI := rest.decideWellFormed
    inferInstanceAs
      (Decidable (IsName name ∧ name ∉ rest.names ∧ node.WellFormed ∧ rest.WellFormed))

end

instance (d : Directory) : Decidable d.WellFormed :=
  d.decideWellFormed

namespace Directory

variable {d sub : Directory} {name : RawText} {node : Node}

/-! ## Entries -/

/-- What a name stands for is listed under it. -/
theorem mem_toList_of_find? (h : d.find? name = some node) : (name, node) ∈ d.toList := by
  fun_induction find? d name with
  | case1 => cases h
  | case2 =>
    cases h
    exact List.mem_cons_self
  | case3 other old rest wanted ne ih => exact List.mem_cons_of_mem _ (ih h)

/-- In a well-formed directory an entry is what its name stands for. -/
theorem find?_of_mem_toList (wf : d.WellFormed) (h : (name, node) ∈ d.toList) :
    d.find? name = some node := by
  fun_induction find? d name with
  | case1 => cases h
  | case2 wanted old rest =>
    rcases List.mem_cons.mp h with same | mem
    · cases same
      rfl
    · exact absurd (List.mem_map_of_mem mem) wf.2.1
  | case3 other old rest wanted ne ih =>
    rcases List.mem_cons.mp h with same | mem
    · cases same
      exact absurd rfl ne
    · exact ih wf.2.2.2 mem

/-- A well-formed directory lists exactly what its names stand for. -/
theorem mem_toList_iff (wf : d.WellFormed) : (name, node) ∈ d.toList ↔ d.find? name = some node :=
  ⟨find?_of_mem_toList wf, mem_toList_of_find?⟩

/-- A well-formed directory lists no name twice. -/
theorem WellFormed.nodup_names (wf : d.WellFormed) : d.names.Nodup := by
  fun_induction toList d with
  | case1 => exact List.nodup_nil
  | case2 name node rest ih => exact List.nodup_cons.mpr ⟨wf.2.1, ih wf.2.2.2⟩

/-- What a well-formed directory lists has a name and is well formed. -/
theorem WellFormed.of_mem (wf : d.WellFormed) (h : (name, node) ∈ d.toList) :
    IsName name ∧ node.WellFormed := by
  fun_induction toList d with
  | case1 => cases h
  | case2 other old rest ih =>
    rcases List.mem_cons.mp h with same | mem
    · cases same
      exact ⟨wf.1, wf.2.2.1⟩
    · exact ih wf.2.2.2 mem

end Directory

/-! ## Locations -/

/-- The node at a location below a node, the node itself at the empty one. -/
def Node.get? : Node → Location → Option Node
  | .directory entries, below => entries.get? below
  | .file content executable, below => if below = [] then some (.file content executable) else none
  | .link target, below => if below = [] then some (.link target) else none

namespace Directory

variable {d sub : Directory} {name : RawText} {node : Node}

@[simp] theorem get?_nil (d : Directory) : d.get? [] = some (.directory d) := by
  rw [get?]

/-- Reading below a name is reading below what the name stands for. -/
theorem get?_cons (d : Directory) (name : RawText) (below : Location) :
    d.get? (name :: below) = (d.find? name).bind fun node => node.get? below := by
  rw [get?]
  cases d.find? name with
  | none => rfl
  | some node => cases node <;> rfl

/-- Reading on from a directory is reading behind its location. -/
theorem get?_append {base : Location} (h : d.get? base = some (.directory sub)) (below : Location) :
    d.get? (base ++ below) = sub.get? below := by
  induction base generalizing d with
  | nil =>
    cases h
    rfl
  | cons name base ih =>
    rw [get?_cons] at h
    rw [List.cons_append, get?_cons]
    obtain ⟨node, found, h⟩ := Option.bind_eq_some_iff.mp h
    rw [found, Option.bind_some]
    cases node with
    | directory inner => exact ih h
    | file content executable => simp [Node.get?] at h
    | link target => simp [Node.get?] at h

/-- What stands at a location of a well-formed tree is well formed, and the location is made of
names. -/
theorem WellFormed.get? (wf : d.WellFormed) {location : Location}
    (h : d.get? location = some node) :
    node.WellFormed ∧ ∀ part ∈ location, IsName part := by
  induction location generalizing d with
  | nil =>
    cases h
    exact ⟨wf, fun _ mem => absurd mem List.not_mem_nil⟩
  | cons name below ih =>
    rw [get?_cons] at h
    obtain ⟨entry, found, h⟩ := Option.bind_eq_some_iff.mp h
    obtain ⟨named, inside⟩ := wf.of_mem (mem_toList_of_find? found)
    have leaf (own : below = [] ∧ entry = node) :
        node.WellFormed ∧ ∀ part ∈ name :: below, IsName part := by
      obtain ⟨rfl, rfl⟩ := own
      exact ⟨inside, List.forall_mem_singleton.mpr named⟩
    cases entry with
    | directory inner =>
      obtain ⟨reached, names⟩ := ih inside h
      exact ⟨reached, List.forall_mem_cons.mpr ⟨named, names⟩⟩
    | file content executable => exact leaf (by simpa [Node.get?] using h)
    | link target => exact leaf (by simpa [Node.get?] using h)

end Directory

end BuildRunner
