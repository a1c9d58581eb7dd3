import BuildRunner.Proofs.Scan.Listing
import BuildRunner.Proofs.Tree.Resolve
import BuildRunner.Proofs.Tree.Walk

/-!
# Which files a scan reads

The candidates of a scan are named by the names that lead down to them from the root, so that they
can be compared without the text of the root, which stands before all of them. Three things are said
of this list: it holds the files that can be reached and no other, it is in strict order, and the
paths are the root followed by these names.

A file can be reached in two ways. The root names it, no link followed in its last step; or the root
leads to a directory, through a link if it is one, and the file stands below. Links below the root
are nodes of their own and lead nowhere, so cycles among them do not matter.

The tree is to be well formed, as file systems are and as every operation leaves it: with a name
listed twice a file would be visited that cannot be read, and the order would not be strict.
-/

namespace BuildRunner

namespace World

variable {w : World} {root : Path} {below : Location} {node : Node}

/-! ## Files that can be reached -/

/-- A file can be reached from a root by going down by names, and stands at a location. It is what
the root itself names, or it stands below the directory the root leads to. A location is read
through directories only, so there is no link on the way down. -/
inductive Reaches (w : World) (root : Path) : Location → Location → Prop
  | itself {location : Location} {content : ByteArray} {executable : Bool} :
    w.locate root false = .ok location →
    w.files.get? location = some (.file content executable) → Reaches w root [] location
  | inside {base below : Location} {content : ByteArray} {executable : Bool} :
    w.locate root true = .ok base → below ≠ [] →
    w.files.get? (base ++ below) = some (.file content executable) →
    Reaches w root below (base ++ below)

/-- From a root that cannot be found nothing can be reached. -/
theorem not_reaches_of_missing {location : Location} {fault : Fault}
    (h : w.node root false = .error fault) : ¬w.Reaches root below location := by
  have missing {node : Node} : ¬w.node root false = .ok node := by simp [h]
  intro reached
  cases reached with
  | itself located file => exact missing (node_eq_ok.mpr ⟨location, located, file⟩)
  | inside located nonempty file =>
    next base content executable =>
    obtain ⟨sub, found⟩ := Directory.exists_directory_of_get?_append nonempty file
    rcases w.locate_follow root with same | ⟨link, target, located', found'⟩
    · exact missing (node_eq_ok.mpr ⟨base, same ▸ located, found⟩)
    · exact missing (node_eq_ok.mpr ⟨link, located', found'⟩)

/-- The last name on the way down to a file is its own, the root's where nothing is gone down. -/
theorem Reaches.getLast?_eq {location : Location} (h : w.Reaches root below location) :
    location.getLast? = some (below.getLastD (root.fileName?.getD root.raw)) := by
  cases h with
  | itself located file =>
    obtain ⟨name, last, own⟩ := fileName?_of_locate located file (by simp [Node.kind])
    rw [own, last]
    rfl
  | inside located nonempty file =>
    obtain ⟨last, hlast⟩ : ∃ last, below.getLast? = some last :=
      ⟨_, List.getLast?_eq_some_getLast nonempty⟩
    rw [List.getLast?_append, List.getLastD_eq_getLast?, hlast]
    rfl

/-! ## The places a walk finds files at -/

/-- A path that does not end in a link leads to the same whether a link would be followed or not. -/
theorem node_follow (noLink : ∀ target, w.node root false ≠ .ok (.link target)) :
    w.node root true = w.node root false := by
  rcases w.locate_follow root with same | ⟨location, target, located, found⟩
  · rw [World.node, World.node, same]
  · exact absurd (node_eq_ok.mpr ⟨location, located, found⟩) (noLink target)

/-- A directory can be walked. -/
theorem exists_walk {entries : Directory} (followed : w.node root true = .ok (.directory entries)) :
    ∃ visits, w.walk root = .ok visits := by
  rw [World.walk]
  cases first : w.node root false with
  | error fault => cases followed.symm.trans ((node_follow (by simp [first])).trans first)
  | ok node =>
    cases node with
    | directory entries => exact ⟨_, rfl⟩
    | file content executable => exact ⟨_, rfl⟩
    | link target =>
      rw [followed]
      exact ⟨_, rfl⟩

/-- The places at which a walk from a root can find files: the root itself if it is a file, else all
below the directory it leads to, if it leads to one. -/
def places (w : World) (root : Path) : List (Location × Node) :=
  match w.node root false with
  | .ok (.file content executable) => [([], .file content executable)]
  | _ =>
    match w.node root true with
    | .ok (.directory entries) => entries.places
    | _ => []

theorem places_of_file {content : ByteArray} {executable : Bool}
    (h : w.node root false = .ok (.file content executable)) :
    w.places root = [([], .file content executable)] := by
  rw [places, h]

theorem places_of_directory {entries : Directory}
    (h : w.node root true = .ok (.directory entries)) : w.places root = entries.places := by
  rw [places, h]
  split
  · next content executable file =>
    have followed : w.node root true = w.node root false := node_follow (by simp [file])
    cases h.symm.trans (followed.trans file)
  · rfl

/-- Where something is found at a place, the root is a file or leads to a directory. -/
theorem of_mem_places (h : (below, node) ∈ w.places root) :
    (below = [] ∧ w.node root false = .ok node) ∨
      ∃ entries, w.node root true = .ok (.directory entries) ∧ (below, node) ∈ entries.places := by
  rw [places] at h
  split at h
  · next file =>
    cases List.mem_singleton.mp h
    exact .inl ⟨rfl, file⟩
  · split at h
    · next entries directory => exact .inr ⟨entries, directory, h⟩
    · cases h

/-- The directory a path leads to in a well-formed tree is well formed. -/
theorem wellFormed_of_node {entries : Directory} {follow : Bool} (wf : w.files.WellFormed)
    (h : w.node root follow = .ok (.directory entries)) : entries.WellFormed := by
  obtain ⟨location, _, found⟩ := node_eq_ok.mp h
  exact (wf.get? found).1

/-- The way down to a place is made of names. -/
theorem isName_of_mem_places (wf : w.files.WellFormed) (h : (below, node) ∈ w.places root) :
    ∀ name ∈ below, IsName name := by
  rcases of_mem_places h with ⟨rfl, _⟩ | ⟨entries, directory, mem⟩
  · exact fun _ mem => absurd mem List.not_mem_nil
  · have inner := wellFormed_of_node wf directory
    exact (inner.get? ((Directory.mem_places inner).mp mem).2).2

/-- The places are in strict order. -/
theorem pairwise_places (wf : w.files.WellFormed) (root : Path) :
    (w.places root).Pairwise fun a b => Location.Before a.1 b.1 := by
  rw [places]
  split
  · exact List.pairwise_singleton _ _
  · split
    · next directory => exact Directory.pairwise_places (wellFormed_of_node wf directory)
    · exact List.Pairwise.nil

/-- The files at the places of a root are those that can be reached from it. -/
theorem exists_reaches_iff (wf : w.files.WellFormed) :
    (∃ location, w.Reaches root below location) ↔
      ∃ node, (below, node) ∈ w.places root ∧ node.kind = .file := by
  constructor
  · rintro ⟨location, reached⟩
    cases reached with
    | itself located file =>
      have itself := node_eq_ok.mpr ⟨location, located, file⟩
      exact ⟨_, places_of_file itself ▸ List.mem_singleton_self _, rfl⟩
    | inside located nonempty file =>
      next base content executable =>
      obtain ⟨sub, found⟩ := Directory.exists_directory_of_get?_append nonempty file
      have directory : w.node root true = .ok (.directory sub) :=
        node_eq_ok.mpr ⟨base, located, found⟩
      have inner := wellFormed_of_node wf directory
      rw [Directory.get?_append found] at file
      rw [places_of_directory directory]
      exact ⟨_, (Directory.mem_places inner).mpr ⟨nonempty, file⟩, rfl⟩
  · rintro ⟨node, mem, kind⟩
    obtain ⟨content, executable, rfl⟩ : ∃ content executable, node = .file content executable := by
      cases node with
      | file content executable => exact ⟨content, executable, rfl⟩
      | link target => cases kind
      | directory entries => cases kind
    rcases of_mem_places mem with ⟨rfl, itself⟩ | ⟨entries, directory, mem⟩
    · obtain ⟨location, located, file⟩ := node_eq_ok.mp itself
      exact ⟨location, .itself located file⟩
    · obtain ⟨base, located, found⟩ := node_eq_ok.mp directory
      obtain ⟨nonempty, file⟩ := (Directory.mem_places (wellFormed_of_node wf directory)).mp mem
      rw [← Directory.get?_append found] at file
      exact ⟨base ++ below, .inside located nonempty file⟩

end World

/-! ## The candidates of a scan -/

namespace Scan

variable {w : World} {root : Path} {extension : String}

/-- The visits of places that are selected, as the ways down to them. -/
theorem select_map_ofPlace (extension : String) (root : Path) (name : RawText)
    (places : List (Location × Node)) :
    select extension (places.map (Visit.ofPlace root name)) =
      (places.filter fun place =>
        (Visit.ofPlace root name place).isFileNamed ("." ++ extension)).map
          fun place => root.descend place.1 := by
  rw [select, List.filter_map, List.map_map]
  rfl

/-- What is no file is not selected. -/
theorem select_cons_of_ne {visit : Visit} (h : visit.kind ≠ .file) (visits : List Visit) :
    select extension (visit :: visits) = select extension visits := by
  simp [select, Visit.isFileNamed, h]

/-- The files a scan finds are the places of the root that bear a file with the extension. -/
theorem found_eq (w : World) (root : Path) (extension : String) :
    found w root extension =
      ((w.places root).filter fun place =>
        (Visit.ofPlace root (root.fileName?.getD root.raw) place).isFileNamed
          ("." ++ extension)).map fun place => root.descend place.1 := by
  rw [← select_map_ofPlace, found, World.walk]
  cases first : w.node root false with
  | error fault =>
    have followed : w.node root true = .error fault :=
      (World.node_follow (by simp [first])).trans first
    rw [World.places, first, followed]
    rfl
  | ok node =>
    cases node with
    | file content executable =>
      rw [World.places_of_file first]
      rfl
    | directory entries =>
      have followed : w.node root true = .ok (.directory entries) :=
        (World.node_follow (by simp [first])).trans first
      rw [World.places_of_directory followed, ← Directory.walk_eq]
      exact select_cons_of_ne (by simp) _
    | link target =>
      cases followed : w.node root true with
      | error fault =>
        rw [World.places, first, followed]
        rfl
      | ok node =>
        cases node with
        | directory entries =>
          rw [World.places_of_directory followed, ← Directory.walk_eq]
          exact select_cons_of_ne (by simp) _
        | file content executable =>
          rw [World.places, first, followed]
          exact select_cons_of_ne (by simp) _
        | link target =>
          rw [World.places, first, followed]
          exact select_cons_of_ne (by simp) _

/-- From a directory the candidates are what a scan finds, and nothing is logged. -/
theorem candidates_of_directory {s : Session} {entries : Directory}
    (followed : s.world.node root true = .ok (.directory entries)) (extension : String) :
    (candidates root extension).run s = .ok (found s.world root extension) s := by
  obtain ⟨visits, walked⟩ := World.exists_walk followed
  rw [candidates, Run.bind_of_ok (Run.run_world s), found, walked]
  rfl

/-- **The candidates are the reachable files with the extension, each once and in order.** The walk
ends in every tree, whatever links it holds. Its files are named by the ways down to them from the
root. A way is among them exactly if a regular file can be reached by it and the name of this file
ends in a dot and the extension. The ways are strictly increasing when they are compared name by
name; the path of each is the root with the names of its way as further components, and no path
occurs twice. From a root at which nothing can be found there are none. -/
theorem candidates_are_reachable_files {s : Session} (wf : s.world.files.WellFormed) (root : Path)
    (extension : String) :
    ∃ ways mid, (candidates root extension).run s = .ok (ways.map root.descend) mid ∧
      (∀ way, way ∈ ways ↔ ∃ location name, s.world.Reaches root way location ∧
        location.getLast? = some name ∧ ("." ++ extension).toList <:+ name.text.toList) ∧
      ways.Pairwise Location.Before ∧
      (∀ way ∈ ways, (root.descend way).components = root.components ++ way.map .name) ∧
      (ways.map root.descend).Nodup ∧
      ∀ fault, s.world.node root false = .error fault → ways = [] := by
  obtain ⟨mid, _, run⟩ := run_candidates s root extension
  rw [found_eq] at run
  let own := root.fileName?.getD root.raw
  let shown (place : Location × Node) : Bool :=
    (Visit.ofPlace root own place).isFileNamed ("." ++ extension)
  let ways := ((s.world.places root).filter shown).map Prod.fst
  have mem_ways (way : Location) : way ∈ ways ↔ ∃ node, (way, node) ∈ s.world.places root ∧
      node.kind = .file ∧ ("." ++ extension).toList <:+ (way.getLastD own).text.toList := by
    simp [ways, shown, Visit.ofPlace, Visit.isFileNamed]
  have names (way : Location) (h : way ∈ ways) : ∀ name ∈ way, IsName name := by
    obtain ⟨node, mem, _⟩ := (mem_ways way).mp h
    exact World.isName_of_mem_places wf mem
  have reached (way : Location) : way ∈ ways ↔ ∃ location name, s.world.Reaches root way location ∧
      location.getLast? = some name ∧ ("." ++ extension).toList <:+ name.text.toList := by
    rw [mem_ways]
    constructor
    · rintro ⟨node, mem, kind, suffix⟩
      obtain ⟨location, reaches⟩ := (World.exists_reaches_iff wf).mpr ⟨node, mem, kind⟩
      exact ⟨location, _, reaches, reaches.getLast?_eq, suffix⟩
    · rintro ⟨location, name, reaches, last, suffix⟩
      obtain ⟨node, mem, kind⟩ := (World.exists_reaches_iff wf).mp ⟨location, reaches⟩
      cases last.symm.trans reaches.getLast?_eq
      exact ⟨node, mem, kind, suffix⟩
  have ordered : ways.Pairwise Location.Before :=
    List.pairwise_map.mpr ((World.pairwise_places wf root).filter shown)
  refine ⟨ways, mid, ?_, reached, ordered, ?_, ?_, ?_⟩
  · rw [run, List.map_map]
    rfl
  · intro way mem
    exact Path.components_descend root (names way mem)
  · refine List.pairwise_map.mpr (ordered.imp_of_mem ?_)
    intro a b ha hb before same
    have equal := Path.descend_injective root (names a ha) (names b hb) same
    exact Location.before_irrefl b (equal ▸ before)
  · intro fault missing
    refine List.eq_nil_iff_forall_not_mem.mpr fun way mem => ?_
    obtain ⟨location, name, reaches, _⟩ := (reached way).mp mem
    exact World.not_reaches_of_missing missing reaches

/-- A session in a tree with a directory beside a file of nearly its name, and with links: to a
file, to the directory above, and to the top itself. -/
def linked : Session where
  world.files := .ofList [("a.zig", .file .empty false), ("c.zig", .link "a.zig"),
    ("here", .link "."),
    ("a", .directory (.ofList [("up", .link ".."), ("b.zig", .file .empty false)]))]
  world.workingDirectory := []
  world.environment := default
  room := none
  trace := []

/-- From a link to the top both files are found, the one in the directory `a` before `a.zig`, and
the link to a file is not. -/
theorem candidates_through_link : linked.world.files.WellFormed ∧
    ∃ (ways : List Location) (mid : Session),
      (candidates ⟨"/here"⟩ "zig").run linked = .ok (ways.map (Path.descend ⟨"/here"⟩)) mid ∧
        (["a", "b.zig"] : Location) ∈ ways ∧ (["a.zig"] : Location) ∈ ways ∧
        (["c.zig"] : Location) ∉ ways ∧
        ways.Pairwise Location.Before := by
  have wf : linked.world.files.WellFormed := by
    decide
  have root : linked.world.locate ⟨"/here"⟩ true = .ok [] := by
    rfl
  obtain ⟨ways, mid, run, reached, ordered, _⟩ := candidates_are_reachable_files wf ⟨"/here"⟩ "zig"
  refine ⟨wf, ways, mid, run, ?_, ?_, ?_, ordered⟩
  · exact (reached _).mpr ⟨_, "b.zig", .inside root (by decide) rfl, rfl, by decide⟩
  · exact (reached _).mpr ⟨_, "a.zig", .inside root (by decide) rfl, rfl, by decide⟩
  · intro mem
    obtain ⟨location, name, reaches, _⟩ := (reached _).mp mem
    cases reaches with
    | inside located nonempty file =>
      cases root.symm.trans located
      cases file

end Scan

end BuildRunner
