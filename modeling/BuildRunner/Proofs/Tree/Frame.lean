import BuildRunner.Proofs.World.WellFormed

/-!
# Altering a tree at one location

What is seen of a node without looking into it is its `Face`: a file with its content, a link with
its target, or a directory. Altering a tree at a location changes faces at this location and below
it only, and the two changes that matter are given by the faces they leave: taking a node away, and
making a directory where nothing is.

A tree is `PartOf` another if all its faces are also found there.
-/

namespace BuildRunner

/-- What is seen of a node without looking into it. -/
inductive Face where
  | file (content : ByteArray) (executable : Bool)
  | link (target : RawText)
  | directory

/-- The face of a node. -/
def Node.face : Node → Face
  | file content executable => .file content executable
  | link target => .link target
  | directory _ => .directory

@[simp] theorem Node.get?_nil (node : Node) : node.get? [] = some node := by
  cases node with
  | directory entries => exact entries.get?_nil
  | file content executable => rfl
  | link target => rfl

namespace Directory

/-- The face of the node at a location. -/
def face? (d : Directory) (location : Location) : Option Face :=
  (d.get? location).map Node.face

variable {d d' : Directory} {location parent below : Location} {name : RawText} {face : Face}
  {change : Option Node → Option Node}

/-! ## Faces -/

@[simp] theorem face?_nil (d : Directory) : d.face? [] = some .directory := by
  rw [face?, get?_nil, Option.map_some, Node.face]

theorem face?_eq_none_iff : d.face? location = none ↔ d.get? location = none :=
  Option.map_eq_none_iff

theorem face?_eq_directory_iff :
    d.face? location = some .directory ↔ ∃ sub, d.get? location = some (.directory sub) := by
  rw [face?, Option.map_eq_some_iff]
  constructor
  · rintro ⟨node, found, face⟩
    cases node with
    | directory sub => exact ⟨sub, found⟩
    | file content executable => cases face
    | link target => cases face
  · rintro ⟨sub, found⟩
    exact ⟨_, found, rfl⟩

theorem isDirectoryAt_iff_face? :
    d.isDirectoryAt location = true ↔ d.face? location = some .directory := by
  rw [isDirectoryAt_iff, face?_eq_directory_iff]

theorem face?_cons (d : Directory) (name : RawText) (below : Location) :
    d.face? (name :: below) =
      (d.find? name).bind fun node => (node.get? below).map Node.face := by
  rw [face?, get?_cons, Option.map_bind]
  rfl

/-! ## Altering -/

theorem alter_cons (d : Directory) (name : RawText) (deeper : below ≠ []) :
    d.alter change (name :: below) =
      match d.find? name with
      | some (.directory sub) => d.put name (.directory (sub.alter change below))
      | _ => d := by
  cases below with
  | nil => exact absurd rfl deeper
  | cons next below => rfl

theorem head_ne_of_outside {other : RawText} {rest : Location}
    (outside : ¬ [name] <+: other :: rest) : name ≠ other := by
  rintro rfl
  exact outside (List.cons_prefix_cons.mpr ⟨rfl, List.nil_prefix⟩)

/-- Altering a location changes no face but those at it and below it. -/
theorem face?_alter_of_outside (outside : ¬ location <+: below) :
    (d.alter change location).face? below = d.face? below := by
  fun_induction alter change d location generalizing below with
  | case1 d => exact absurd List.nil_prefix outside
  | case2 d name node put =>
    cases below with
    | nil => rw [face?_nil, face?_nil]
    | cons other rest =>
      rw [face?_cons, find?_put, if_neg (head_ne_of_outside outside), ← face?_cons]
  | case3 d name gone =>
    cases below with
    | nil => rw [face?_nil, face?_nil]
    | cons other rest =>
      rw [face?_cons, find?_erase, if_neg (head_ne_of_outside outside), ← face?_cons]
  | case4 d name next rest sub found ih =>
    cases below with
    | nil => rw [face?_nil, face?_nil]
    | cons other below =>
      rw [face?_cons, face?_cons, find?_put]
      split
      · next same =>
        subst same
        rw [found]
        exact ih fun inside => outside (List.cons_prefix_cons.mpr ⟨rfl, inside⟩)
      · rfl
  | case5 => rfl

/-- What is found at an altered location and below it is what the change put there, if the location
is one in a directory. -/
theorem get?_alter_append (d : Directory) (change : Option Node → Option Node) (parent : Location)
    (name : RawText) (below : Location) :
    (d.alter change (parent ++ [name])).get? (parent ++ name :: below) =
      if d.isDirectoryAt parent then
        (change (d.get? (parent ++ [name]))).bind fun node => node.get? below
      else none := by
  induction parent generalizing d with
  | nil =>
    have own : d.get? [name] = d.find? name := by
      rw [get?_cons]
      cases d.find? name with
      | none => rfl
      | some node => exact node.get?_nil
    rw [if_pos (isDirectoryAt_nil d), List.nil_append, List.nil_append, own, get?_cons, alter]
    cases change (d.find? name) with
    | none => rw [find?_erase, if_pos rfl]
    | some node => rw [find?_put, if_pos rfl]
  | cons first parent ih =>
    have deeper : parent ++ [name] ≠ [] := List.concat_ne_nil _ _
    have further : parent ++ name :: below ≠ [] := by simp
    rw [List.cons_append, List.cons_append, alter_cons d first deeper]
    rcases found : d.find? first with _ | ⟨content, executable⟩ | target | sub
    · simp [get?_cons, isDirectoryAt, found]
    · simp [get?_cons, isDirectoryAt, found, Node.get?, further]
      split <;> simp [Node.kind]
    · simp [get?_cons, isDirectoryAt, found, Node.get?, further]
      split <;> simp [Node.kind]
    · have inner : d.isDirectoryAt (first :: parent) = sub.isDirectoryAt parent := by
        rw [isDirectoryAt, isDirectoryAt, get?_cons, found, Option.bind_some, Node.get?]
      rw [inner, get?_cons, get?_cons, find?_put, if_pos rfl, found, Option.bind_some,
        Option.bind_some, Node.get?, Node.get?]
      exact ih sub

/-- Taking a node away leaves all faces but those at it and below it. -/
theorem face?_alter_none (d : Directory) (nonempty : location ≠ []) (other : Location) :
    (d.alter (fun _ => none) location).face? other =
      if location <+: other then none else d.face? other := by
  split
  · next inside =>
    obtain ⟨below, rfl⟩ := inside
    rw [← List.dropLast_concat_getLast nonempty, List.append_assoc, face?_eq_none_iff,
      List.singleton_append, get?_alter_append]
    exact ite_self none
  · next outside => exact face?_alter_of_outside outside

/-- Putting a node with nothing below it, where no directory is, changes the face there and leaves
all others. -/
theorem face?_alter_leaf {node : Node} (stands : d.isDirectoryAt parent = true)
    (bare : ∀ below, below ≠ [] → node.get? below = none)
    (leaf : ∀ sub, d.get? (parent ++ [name]) ≠ some (.directory sub)) (other : Location) :
    (d.alter (fun _ => some node) (parent ++ [name])).face? other =
      if other = parent ++ [name] then some node.face else d.face? other := by
  by_cases inside : parent ++ [name] <+: other
  · obtain ⟨below, rfl⟩ := inside
    rw [face?, List.append_assoc, List.singleton_append, get?_alter_append, if_pos stands,
      Option.bind_some]
    by_cases own : below = []
    · subst own
      rw [if_pos rfl, Node.get?_nil, Option.map_some]
    · have missing : d.get? (parent ++ name :: below) = none := by
        rw [Option.eq_none_iff_forall_ne_some]
        intro node found
        rw [← List.singleton_append, ← List.append_assoc] at found
        obtain ⟨sub, above⟩ := exists_directory_of_get?_append own found
        exact leaf sub above
      rw [if_neg (by simp [own]), face?, missing, bare below own]
  · rw [face?_alter_of_outside inside, if_neg]
    rintro rfl
    exact inside List.prefix_rfl

/-- Making a directory where nothing is adds its face and leaves all others. -/
theorem face?_alter_directory (stands : d.isDirectoryAt parent = true)
    (free : d.get? (parent ++ [name]) = none) (other : Location) :
    (d.alter (fun _ => some (.directory .empty)) (parent ++ [name])).face? other =
      if other = parent ++ [name] then some .directory else d.face? other := by
  refine face?_alter_leaf stands (fun below more => ?_) (by simp [free]) other
  obtain ⟨next, rest, rfl⟩ := List.exists_cons_of_ne_nil more
  rw [Node.get?, get?_cons]
  rfl

/-- A tree with nodes taken away. -/
def without (d : Directory) (locations : List Location) : Directory :=
  locations.foldl (fun d location => d.alter (fun _ => none) location) d

/-- What is left when nodes are taken away was there before, and outside of them. -/
theorem face?_of_face?_without {locations : List Location}
    (below : ∀ location ∈ locations, location ≠ []) {other : Location}
    (h : (d.without locations).face? other = some face) :
    d.face? other = some face ∧ ∀ location ∈ locations, ¬ location <+: other := by
  induction locations generalizing d with
  | nil => exact ⟨h, fun _ mem => absurd mem List.not_mem_nil⟩
  | cons location locations ih =>
    obtain ⟨nonempty, others⟩ := List.forall_mem_cons.mp below
    obtain ⟨left, outside⟩ := ih others h
    rw [face?_alter_none d nonempty] at left
    split at left
    · cases left
    · next own => exact ⟨left, List.forall_mem_cons.mpr ⟨own, outside⟩⟩

/-! ## Parts of a tree -/

/-- All that is seen in one tree is seen in another. -/
def PartOf (d d' : Directory) : Prop :=
  ∀ location face, d.face? location = some face → d'.face? location = some face

theorem PartOf.refl (d : Directory) : d.PartOf d :=
  fun _ _ h => h

theorem PartOf.trans {d'' : Directory} (h : d.PartOf d') (h' : d'.PartOf d'') : d.PartOf d'' :=
  fun location face found => h' location face (h location face found)

theorem PartOf.isDirectoryAt (h : d.PartOf d') (stands : d.isDirectoryAt location = true) :
    d'.isDirectoryAt location = true :=
  isDirectoryAt_iff_face?.mpr (h _ _ (isDirectoryAt_iff_face?.mp stands))

theorem PartOf.get?_directory (h : d.PartOf d') {sub : Directory}
    (found : d.get? location = some (.directory sub)) :
    ∃ sub', d'.get? location = some (.directory sub') :=
  face?_eq_directory_iff.mp (h _ _ (face?_eq_directory_iff.mpr ⟨sub, found⟩))

/-- A file or a link is known by its face. -/
theorem get?_of_face? {node : Node} (seen : d.face? location = some node.face)
    (kind : node.kind ≠ .directory) : d.get? location = some node := by
  obtain ⟨other, found, same⟩ := Option.map_eq_some_iff.mp seen
  rw [found]
  cases node with
  | directory sub => exact absurd rfl kind
  | file content executable =>
    cases other <;> cases same
    rfl
  | link target =>
    cases other <;> cases same
    rfl

theorem PartOf.get?_leaf (h : d.PartOf d') {node : Node}
    (found : d.get? location = some node) (kind : node.kind ≠ .directory) :
    d'.get? location = some node :=
  get?_of_face? (h location node.face (by rw [face?, found, Option.map_some])) kind

end Directory

end BuildRunner
