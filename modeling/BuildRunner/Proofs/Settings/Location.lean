import BuildRunner.Proofs.World.Paths
import BuildRunner.Settings.Load
import Mathlib.Data.List.Infix

/-!
# Which settings file counts

Settings are meant to come from the file in the root of the project. They do where the root is an
absolute path. A root that is a relative path is joined to the working directory, and, as long as no
file is found, to each directory above it in turn. So there the nearest of these files counts, and
it need not be in the root of the project (`file_above_counts`).

In both cases the settings depend on the file tree through these places only, and of them on none
behind the first that has a file (`nearest_settings_file_counts`).
-/

namespace BuildRunner

variable {w w' : World} {root own : Path} {here location : Location} {name : RawText}

namespace World

/-! ## The directories above a location -/

/-- The parent of the path of a location is the path of the directory that the location is in. -/
theorem parent?_pathOf_concat (named : ∀ n ∈ location ++ [name], IsName n) :
    (pathOf (location ++ [name])).parent? = some (pathOf location) := by
  have kept {l : Location} (named : ∀ n ∈ l, IsName n) : Path.dropFillers l = l := by
    rcases List.eq_nil_or_concat l with rfl | ⟨front, last, rfl⟩
    · rfl
    · rw [List.concat_eq_append] at named ⊢
      exact Path.dropFillers_of_getLast? List.getLast?_concat (named last (by simp)).not_filler
  have lead : (pathOf (location ++ [name])).lead = some .root := by
    rw [Path.lead, if_pos (isAbsolute_pathOf _)]
  have body : (pathOf (location ++ [name])).body = location ++ [name] := by
    rw [Path.body, lead, segments_pathOf (by simp) fun n mem => (named n mem).no_slash]
    rfl
  rw [Path.parent?, body, kept named, lead]
  split
  · next none => cases (List.append_eq_nil_iff.mp none).2
  · rw [List.dropLast_concat, kept fun n mem => named n (List.mem_append_left _ mem)]
    rfl

/-- The paths above that of a location are those of the directories above it, the nearest first. -/
theorem ancestorsFrom_pathOf (named : ∀ n ∈ location, IsName n) {count : Nat}
    (enough : location.length ≤ count) :
    (pathOf location).ancestorsFrom count = location.inits.reverse.map pathOf := by
  induction location using List.reverseRecOn generalizing count with
  | nil => cases count <;> rfl
  | append_singleton above name ih =>
    rw [List.length_append, List.length_singleton] at enough
    obtain ⟨count, rfl⟩ := Nat.exists_eq_add_of_le' (Nat.le_of_add_left_le enough)
    rw [Path.ancestorsFrom, parent?_pathOf_concat named]
    have upward := ih (fun n mem => named n (List.mem_append_left _ mem))
      (Nat.le_of_add_le_add_right enough)
    simp [upward]

theorem ancestors_pathOf (named : ∀ n ∈ location, IsName n) :
    (pathOf location).ancestors = location.inits.reverse.map pathOf := by
  refine ancestorsFrom_pathOf named ?_
  by_cases top : location = []
  · simp [top]
  · rw [segments_pathOf top fun n mem => (named n mem).no_slash]
    exact Nat.le_succ _

/-! ## The first of some files -/

/-- The bytes of the file that a path leads to, if it leads to one. -/
def contentAt? (w : World) (p : Path) : Option ByteArray :=
  match w.node p true with
  | .ok (.file content _) => some content
  | _ => none

/-- The first of some paths that leads to a file, with the bytes of this file. -/
def firstFile? (w : World) (places : List Path) : Option (Path × ByteArray) :=
  places.findSome? fun place => (w.contentAt? place).map (place, ·)

theorem isFile_eq (w : World) (p : Path) : w.isFile p = (w.contentAt? p).isSome := by
  rw [isFile, contentAt?]
  split <;> simp_all

theorem find?_isFile (w : World) (places : List Path) :
    places.find? w.isFile = (w.firstFile? places).map Prod.fst := by
  induction places with
  | nil => rfl
  | cons place places ih =>
    rw [List.find?_cons, isFile_eq, firstFile?, List.findSome?_cons]
    cases w.contentAt? place with
    | none => exact ih
    | some content => rfl

theorem readText_of_firstFile? {places : List Path} {file : Path} {content : ByteArray}
    (found : w.firstFile? places = some (file, content)) :
    w.readText file = match String.fromUTF8? content with
      | some text => .ok text
      | none => .error .notText := by
  obtain ⟨_, place, _, _, here, _⟩ := List.findSome?_eq_some_iff.mp found
  obtain ⟨_, there, same⟩ := Option.map_eq_some_iff.mp here
  cases same
  rw [contentAt?] at there
  split at there
  · next executable node =>
    cases there
    rw [readText, readBytes, node]
    rfl
  · cases there

/-- Whoever looks for a file upward from `here` looks in a directory: `here` itself or one above it,
between which and `here` no directory has the file. -/
structure LooksIn (w : World) (own : Path) (here directory : Location) : Prop where
  above : directory <+: here
  free : ∀ nearer, directory <+: nearer → nearer <+: here → nearer ≠ directory →
    w.contentAt? ((pathOf nearer).join own) = none

/-- The places that are looked at decide which file is found upward from a directory. -/
theorem firstFile?_upward
    (same : ∀ directory, w.LooksIn own here directory →
      w'.contentAt? ((pathOf directory).join own) = w.contentAt? ((pathOf directory).join own)) :
    w'.firstFile? (here.inits.reverse.map fun directory => (pathOf directory).join own) =
      w.firstFile? (here.inits.reverse.map fun directory => (pathOf directory).join own) := by
  -- the nearest directory is looked in, and the others only if it has no file
  induction here using List.reverseRecOn with
  | nil =>
    have top := same [] ⟨List.prefix_rfl, fun _ _ below other =>
      absurd (List.prefix_nil.mp below) other⟩
    simp [firstFile?, top]
  | append_singleton above name ih =>
    have nearest := same (above ++ [name]) ⟨List.prefix_rfl, fun _ upper lower other =>
      absurd (lower.eq_of_length_le upper.length_le) other⟩
    have places : (above ++ [name]).inits.reverse = (above ++ [name]) :: above.inits.reverse := by
      simp
    rw [places, List.map_cons, firstFile?, firstFile?, List.findSome?_cons, List.findSome?_cons,
      nearest]
    cases own' : w.contentAt? ((pathOf (above ++ [name])).join own) with
    | some content => rfl
    | none =>
      refine ih fun directory looks => same directory
        ⟨looks.above.trans (List.prefix_append _ _), fun nearer upper lower other => ?_⟩
      obtain rfl | lower := List.prefix_concat_iff.mp lower
      · exact own'
      · exact looks.free nearer upper lower other

end World

namespace Settings

open World

/-! ## Where the settings file is looked for -/

/-- The places at which the settings file of a project is looked for, in order. -/
def places (w : World) (root : Path) : List Path :=
  let wanted := root.join ⟨fileName⟩
  if wanted.isAbsolute then [wanted]
  else
    match w.workingPath with
    | .ok here => here.ancestors.map fun directory => directory.join wanted
    | .error _ => []

/-- The settings that the bytes of a settings file give. -/
def fromContent (reported : Path) (content : ByteArray) : Except Refusal Table :=
  match String.fromUTF8? content with
  | none => .error .malformed
  | some text =>
    match Toml.read? text with
    | none => .error .malformed
    | some entries => .ok (entries.table (.file reported))

theorem file?_eq (w : World) (root : Path) :
    file? w root = (w.firstFile? (places w root)).map Prod.fst := by
  rw [← find?_isFile, places, file?]
  split
  · rw [List.find?_singleton]
  · cases w.workingPath <;> rfl

/-- The settings file gives what the first file at these places holds. -/
theorem fromFile_eq_firstFile? (w : World) (root : Path) :
    fromFile w root = match w.firstFile? (places w root) with
      | none => .ok .empty
      | some (file, content) => fromContent (reportedPath w file) content := by
  rw [fromFile, file?_eq]
  cases found : w.firstFile? (places w root) with
  | none => rfl
  | some first =>
    obtain ⟨file, content⟩ := first
    dsimp only [Option.map_some]
    rw [readText_of_firstFile? found, fromContent]
    cases String.fromUTF8? content <;> rfl

/-- Settings are the same where the same file is found from the same directory. -/
theorem load_congr_of_firstFile? (environment : w'.environment = w.environment)
    (working : w'.workingPath = w.workingPath)
    (same : w'.firstFile? (places w' root) = w.firstFile? (places w root)) :
    load w' root = load w root := by
  have reported (file : Path) : reportedPath w' file = reportedPath w file := by
    rw [reportedPath, reportedPath, working]
  rw [load, load, fromFile_eq_firstFile?, fromFile_eq_firstFile?, same, environment]
  simp only [reported]

/-- A settings file is looked for at an absolute path if the root is one. -/
theorem isAbsolute_join_fileName (root : Path) :
    (root.join ⟨fileName⟩).isAbsolute = root.isAbsolute := by
  by_cases empty : root.raw = ""
  · cases root
    cases empty
    rfl
  · exact (Path.segments_join_relative (by decide) empty).1

/-- **The nearest settings file counts, and no other file.** Take two file trees with the same
working directory. If the root of a project is an absolute path, and the settings file in it has the
same bytes in both trees or is missing in both, the settings that are loaded are the same, or are
refused in the same way. If the root is a relative path, this holds for the places of the settings
file as seen from the working directory and from the directories above it, up to the nearest one
that has a file there. -/
theorem nearest_settings_file_counts {files files' : Directory} (wf : files.WellFormed)
    (stands : files.isDirectoryAt here = true) (stands' : files'.isDirectoryAt here = true)
    (env : Environment) (root : Path) :
    let w : World := ⟨files, here, env⟩
    let w' : World := ⟨files', here, env⟩
    let own := root.join ⟨fileName⟩
    (root.isAbsolute = true → w'.contentAt? own = w.contentAt? own →
      load w' root = load w root) ∧
    (root.isAbsolute = false →
      (∀ directory, w.LooksIn own here directory →
        w'.contentAt? ((pathOf directory).join own) =
          w.contentAt? ((pathOf directory).join own)) →
      load w' root = load w root) := by
  intro w w' own
  have known : w.workingPath = .ok (pathOf here) := by rw [workingPath, if_pos stands]
  have known' : w'.workingPath = .ok (pathOf here) := by rw [workingPath, if_pos stands']
  have form : own.isAbsolute = root.isAbsolute := isAbsolute_join_fileName root
  constructor
  · intro absolute same
    refine load_congr_of_firstFile? rfl (known'.trans known.symm) ?_
    have single (w : World) : places w root = [own] := by
      rw [places, if_pos (form.trans absolute)]
    rw [single, single, firstFile?, firstFile?, List.findSome?_cons, List.findSome?_cons, same]
    rfl
  · intro relative same
    refine load_congr_of_firstFile? rfl (known'.trans known.symm) ?_
    obtain ⟨_, found⟩ := Directory.isDirectoryAt_iff.mp stands
    have upward {w : World} (known : w.workingPath = .ok (pathOf here)) : places w root =
        here.inits.reverse.map fun directory => (pathOf directory).join own := by
      have relative : ¬own.isAbsolute = true := by simp [form, relative]
      rw [places, if_neg relative, known]
      dsimp only
      rw [ancestors_pathOf (wf.get? found).2, List.map_map]
      rfl
    rw [upward known, upward known', firstFile?_upward same]

/-- A settings file with the place of the site. -/
def siteFile (place : String) : Node :=
  .file ("docs.site_dir = '" ++ place ++ "'").toUTF8 false

/-- From a directory without a settings file, that of the directory above it is found. What the one
above that holds makes no difference then. The root as an absolute path leads to no settings
file. -/
theorem nearest_settings_file_counts_above :
    let inner : Node := .directory (.ofList [("b", .directory .empty), ("x.toml", siteFile "near")])
    let files : Directory := .ofList [("a", inner)]
    let files' : Directory := .ofList [("x.toml", siteFile "far"), ("a", inner)]
    let w : World := ⟨files, ["a", "b"], ⟨[]⟩⟩
    let w' : World := ⟨files', ["a", "b"], ⟨[]⟩⟩
    files.WellFormed ∧ files.isDirectoryAt ["a", "b"] = true ∧
      files'.isDirectoryAt ["a", "b"] = true ∧
      load w' ⟨"."⟩ = load w ⟨"."⟩ ∧
      (load w ⟨"."⟩).map (fun settings => settings.docs.siteDir) = .ok "near" ∧
      load w' ⟨"/a/b"⟩ = load w ⟨"/a/b"⟩ ∧ load w ⟨"/a/b"⟩ = .ok .default := by
  intro inner files files' w w'
  have wf : files.WellFormed := by decide +kernel
  have stands : files.isDirectoryAt ["a", "b"] = true := by decide +kernel
  have stands' : files'.isDirectoryAt ["a", "b"] = true := by decide +kernel
  have counts (root : Path) := nearest_settings_file_counts wf stands stands' ⟨[]⟩ root
  refine ⟨wf, stands, stands', (counts ⟨"."⟩).2 rfl fun directory looks => ?_, by decide +kernel,
    (counts ⟨"/a/b"⟩).1 rfl (by decide +kernel), by decide +kernel⟩
  have above := (List.mem_inits _ _).mpr looks.above
  obtain rfl | rfl | rfl : directory = [] ∨ directory = (["a"] : Location) ∨
      directory = (["a", "b"] : Location) := by
    simpa using above
  · have near := looks.free ["a"] (by simp) (by simp) (by simp)
    have there : w.contentAt? ((pathOf ["a"]).join ((Path.mk ".").join ⟨fileName⟩)) ≠ none := by
      decide +kernel
    exact absurd near there
  · decide +kernel
  · decide +kernel

/-- A project whose root is the working directory, given by a relative path, and holds no settings
file, is given the settings of the directory above it. -/
theorem file_above_counts :
    let files : Directory := .ofList [("b", .directory .empty)]
    let files' : Directory := .ofList [("b", .directory .empty), ("x.toml", siteFile "above")]
    let w : World := ⟨files, ["b"], ⟨[]⟩⟩
    let w' : World := ⟨files', ["b"], ⟨[]⟩⟩
    let own := (Path.mk ".").join ⟨fileName⟩
    w.contentAt? own = none ∧ w'.contentAt? own = none ∧ load w ⟨"."⟩ = .ok .default ∧
      load w' ⟨"."⟩ ≠ load w ⟨"."⟩ := by
  decide +kernel

end Settings

end BuildRunner
