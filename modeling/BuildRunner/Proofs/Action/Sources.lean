import BuildRunner.Proofs.Action.ManualPages
import BuildRunner.Proofs.World.Paths

/-!
# How plans name their sources

A plan finds its sources by a path from the root, in the directory that is set for them, and names
each of them by an argument of a program that is started in the root. The program joins the argument
to the root again. The law is that this leads back to the file that was found, whatever root and
setting are: absolute or relative, empty, with slashes at their ends, or with `.` and `..` in them.

For manual pages the two paths are the same, since joining is associative. For the site the root is
taken off the path that was found, if the path starts with it, and joined again. The path then has
the components it had, and so leads to the same place. Where the root cannot be taken off, the path
is absolute and needs no root.

An argument is a text, so it is the path only as far as the path can be shown. The root is not shown
where it is taken off, and settings are texts. So all depends on the names below the directory: if
they are Unicode, the argument is the path, and else it is what is shown of it, which need not be
the path of any file that was found (`shown_names_denote_nothing`).

One case is left out: if the root is itself the file that was found, nothing of the path is left,
and a slash is joined to the root, behind which no file is found. But then the root is no directory,
and no program can be started in it.
-/

namespace BuildRunner

/-- The argument by which an invocation names its source. -/
def Invocation.source? (invocation : Invocation) : Option String :=
  invocation.arguments[2]?

/-- A path as seen from a base, or as it is where that cannot be seen. -/
def Path.behind (p base : Path) : Path :=
  (p.stripPrefix? base).getD p

/-- An argument, joined to the root, stands for what is reached from a directory by names and stands
at a location. It has the components of the directory and then these names. It leads to the location
if the root is a directory, or at least has other components. -/
structure World.Denotes (w : World) (root directory : Path) (way location : Location)
    (argument : RawText) : Prop where
  components : (root.join ⟨argument⟩).components = directory.components ++ way.map .name
  located : (w.isDirectory root = true ∨
      root.components ≠ directory.components ++ way.map .name) → ∀ follow,
    w.locateSteps (root.join ⟨argument⟩).isAbsolute follow (root.join ⟨argument⟩).steps =
      .ok location

/-- `source` names the files at ways down from a directory: each file by what is shown of a path
that denotes it, and by this path itself if the names on the way are Unicode. Files that have the
same argument are shown alike. -/
structure World.Names (w : World) (root directory : Path) (ways : List Location)
    (source : Location → String) : Prop where
  nodup : ways.Nodup
  shows : ∀ way ∈ ways, ∃ location argument, w.Reaches directory way location ∧
    w.Denotes root directory way location argument ∧ source way = argument.text
  denotes : ∀ way ∈ ways, (∀ name ∈ way, name.IsUnicode) → ∃ location,
    w.Reaches directory way location ∧ w.Denotes root directory way location (source way)
  distinct : ∀ a ∈ ways, ∀ b ∈ ways, source a = source b → a.map RawText.text = b.map RawText.text

/-! ## A path behind another one -/

namespace Path

variable {p base : Path}

/-- A path that starts with the components of another one has, behind it, the others. -/
theorem components_behind (h : base.components <+: p.components) :
    p.components = base.components ++ (p.behind base).components := by
  obtain ⟨seen, stripped⟩ := Option.isSome_iff_exists.mp (isSome_stripPrefix? h)
  rw [behind, stripped, Option.getD_some]
  exact components_stripPrefix? stripped

/-- A path that does not start with the components of another one is not changed. -/
theorem behind_eq_self (h : ¬base.components <+: p.components) : p.behind base = p := by
  cases stripped : p.stripPrefix? base with
  | none => rw [behind, stripped, Option.getD_none]
  | some seen => exact absurd ⟨_, (components_stripPrefix? stripped).symm⟩ h

end Path

namespace World

variable {w : World} {root sub directory : Path} {way location : Location}

/-! ## Arguments that denote files -/

/-- What is reached by names below a directory is a file there, to which the path down from the
directory leads. -/
theorem Reaches.inside_of_ne_nil (wf : w.files.WellFormed)
    (reached : w.Reaches directory way location) (more : way ≠ []) :
    directory.raw ≠ "" ∧ (∀ name ∈ way, IsName name) ∧
      w.files.isDirectoryAt location = false ∧ ∀ follow,
        w.locateSteps (directory.descend way).isAbsolute follow (directory.descend way).steps =
          .ok location := by
  cases reached with
  | itself => exact absurd rfl more
  | inside located nonempty file =>
    next base content executable =>
    have named : ∀ name ∈ way, IsName name := fun name mem =>
      (wf.get? file).2 name (List.mem_append_right _ mem)
    obtain ⟨plain, _⟩ := locate_eq_ok.mp located
    refine ⟨(badPath_eq_none.mp plain).2.1, named, ?_,
      locateSteps_descend named more located file (by simp [Node.kind])⟩
    simp [Directory.isDirectoryAt, file, Node.kind]

/-- A path down from a directory ends in a name. -/
theorem exists_last_of_descend (named : ∀ name ∈ way, IsName name) (more : way ≠ [])
    (nonempty : directory.raw ≠ "") : ∃ last, Path.isFiller last = false ∧
      (directory.descend way).segments.getLast? = some last := by
  have ends := List.getLast?_eq_some_getLast more
  exact ⟨way.getLast more, (named _ (List.getLast_mem more)).not_filler,
    Path.getLast?_segments_descend named ends nonempty⟩

/-- A root that is a directory is none of the files below a directory. -/
theorem components_ne_of_isDirectory (wf : w.files.WellFormed)
    (reached : w.Reaches directory way location) (more : way ≠ [])
    (stands : w.isDirectory root = true) :
    root.components ≠ directory.components ++ way.map .name := by
  obtain ⟨nonempty, named, file, leads⟩ := reached.inside_of_ne_nil wf more
  obtain ⟨last, filler, closing⟩ := exists_last_of_descend named more nonempty
  intro same
  rw [← Path.components_descend _ named] at same
  obtain ⟨other, located, found⟩ := isDirectory_iff.mp stands
  obtain ⟨_, located⟩ := locate_eq_ok.mp located
  have led := leads true
  obtain ⟨here, start, reached⟩ := locateSteps_eq_ok.mp located
  obtain ⟨here', start', reached'⟩ := locateSteps_eq_ok.mp led
  rw [Path.isAbsolute_congr same, start'] at start
  cases start
  -- both lead to where their plain steps do
  have plain := Directory.resolve_plain (isDirectoryAt_of_origin? start') reached
  rw [Directory.resolve_eq_plain _ _ _ _ (Path.getLast?_steps closing filler), Path.plain_steps,
    ← same, ← Path.plain_steps, plain] at reached'
  cases reached'
  rw [found] at file
  cases file

/-- The names behind the setting of a directory denote what is reached from this directory. -/
theorem denotes_descend (wf : w.files.WellFormed)
    (reached : w.Reaches (root.join sub) way location) (more : way ≠ []) :
    w.Denotes root (root.join sub) way location (sub.descend way).raw := by
  obtain ⟨_, named, _, leads⟩ := reached.inside_of_ne_nil wf more
  have same : root.join ⟨(sub.descend way).raw⟩ = (root.join sub).descend way :=
    Path.join_descend root sub way
  exact ⟨by rw [same, Path.components_descend _ named], fun _ => same ▸ leads⟩

/-- The root can be taken off a path below a directory, or this directory does not depend on it. -/
theorem stripPrefix?_descend (named : ∀ name ∈ way, IsName name) (more : way ≠ [])
    (nonempty : (root.join sub).raw ≠ "") :
    (∃ q, ((root.join sub).descend way).stripPrefix? root = some q) ∨
      ((root.join sub).descend way).isAbsolute = true := by
  cases absolute : sub.isAbsolute with
  | true =>
    right
    rw [(Path.steps_descend named more nonempty).2, Path.join_of_isAbsolute root absolute, absolute]
  | false =>
    left
    refine Option.isSome_iff_exists.mp (Path.isSome_stripPrefix? ?_)
    rw [Path.components_descend _ named]
    by_cases empty : root.raw = ""
    · have own : root = ⟨""⟩ := by
        cases root
        exact congrArg Path.mk empty
      rw [own]
      exact List.nil_prefix
    · rw [Path.components_join_relative absolute empty, List.append_assoc]
      exact List.prefix_append _ _

/-- What is seen from the root of a path below a directory denotes what the path does. -/
theorem denotes_behind (wf : w.files.WellFormed)
    (reached : w.Reaches (root.join sub) way location) (more : way ≠ []) :
    w.Denotes root (root.join sub) way location
      (((root.join sub).descend way).behind root).raw := by
  obtain ⟨nonempty, named, _, leads⟩ := reached.inside_of_ne_nil wf more
  have components := Path.components_descend (root.join sub) named
  rw [Path.behind]
  cases stripped : ((root.join sub).descend way).stripPrefix? root with
  | some q =>
    rw [Option.getD_some]
    have same := Path.components_join_stripPrefix? stripped
    refine ⟨same.trans components, fun apart follow => ?_⟩
    have other : root.components ≠ ((root.join sub).descend way).components := by
      rw [components]
      exact apart.elim (components_ne_of_isDirectory wf reached more) id
    obtain ⟨last, filler, closing⟩ := exists_last_of_descend named more nonempty
    have left := Path.getLast?_join_stripPrefix? stripped closing filler other.symm
    rw [← leads follow]
    exact locateSteps_congr same (Path.getLast?_steps left filler)
      (Path.getLast?_steps closing filler)
  | none =>
    rw [Option.getD_none]
    have absolute : ((root.join sub).descend way).isAbsolute = true :=
      (stripPrefix?_descend named more nonempty).resolve_left (by simp [stripped])
    have alone : root.join ⟨((root.join sub).descend way).raw⟩ = (root.join sub).descend way :=
      Path.join_of_isAbsolute root absolute
    exact ⟨by rw [alone, components], fun _ => by rwa [alone]⟩

/-! ## Arguments that are shown as they are -/

/-- Joining adds the components of a path to those of the root, or leaves the path alone. -/
theorem join_eq_or_components_join (root sub : Path) : root.join sub = sub ∨
    (root.join sub).components = root.components ++ Path.bodyComponents sub.segments := by
  cases absolute : sub.isAbsolute with
  | true => exact .inl (Path.join_of_isAbsolute root absolute)
  | false =>
    by_cases empty : root.raw = ""
    · exact .inl (Path.join_of_empty empty sub)
    · exact .inr (Path.components_join_relative absolute empty)

/-- The way down from a path to a file adds nothing but its names to what is shown. -/
theorem isUnicode_of_mem_descend (named : ∀ name ∈ way, IsName name) (own : sub.raw.IsUnicode)
    (unicode : ∀ name ∈ way, name.IsUnicode) :
    ∀ component ∈ (sub.descend way).components, component.segment.IsUnicode := by
  rw [Path.components_descend sub named]
  intro component mem
  rcases List.mem_append.mp mem with front | below
  · exact Path.isUnicode_of_mem_components own component front
  · obtain ⟨name, listed, rfl⟩ := List.mem_map.mp below
    exact unicode name listed

/-- What is seen from the root below a directory that is Unicode, by names that are, is Unicode. The
root itself need not be. -/
theorem isUnicode_behind (named : ∀ name ∈ way, IsName name) (own : sub.raw.IsUnicode)
    (unicode : ∀ name ∈ way, name.IsUnicode) :
    (((root.join sub).descend way).behind root).raw.IsUnicode := by
  refine Path.isUnicode_of_components fun component mem => ?_
  have all := isUnicode_of_mem_descend named own unicode
  rcases join_eq_or_components_join root sub with alone | joined
  · rw [alone] at mem
    by_cases front : root.components <+: (sub.descend way).components
    · refine all component ?_
      rw [Path.components_behind front]
      exact List.mem_append_right _ mem
    · exact all component (Path.behind_eq_self front ▸ mem)
  · have whole := Path.components_descend (root.join sub) named
    rw [joined, List.append_assoc] at whole
    rw [Path.components_behind ⟨_, whole.symm⟩, List.append_cancel_left_eq] at whole
    refine all component ?_
    rw [whole] at mem
    rw [Path.components_descend sub named, Path.components_eq, List.append_assoc]
    exact List.mem_append_right _ mem

/-- What is shown of paths that denote files names these files. -/
theorem names_of_denotes {root : Path} {ways : List Location} {argument : Location → Path}
    (nodup : ways.Nodup) (denotes : ∀ way ∈ ways, ∃ location, w.Reaches directory way location ∧
      w.Denotes root directory way location (argument way).raw)
    (unicode : ∀ way ∈ ways, (∀ name ∈ way, name.IsUnicode) → (argument way).raw.IsUnicode) :
    w.Names root directory ways fun way => (argument way).text := by
  refine ⟨nodup, fun way mem => ?_, fun way mem plain => ?_, fun a ha b hb same => ?_⟩
  · obtain ⟨location, reached, own⟩ := denotes way mem
    exact ⟨location, _, reached, own, rfl⟩
  · obtain ⟨location, reached, own⟩ := denotes way mem
    rw [← (unicode way mem plain).ofString_text] at own
    exact ⟨location, reached, own⟩
  · obtain ⟨_, _, first⟩ := denotes a ha
    obtain ⟨_, _, second⟩ := denotes b hb
    -- joined to the root, both arguments are shown alike, component by component
    have shown : (argument a).shown = (argument b).shown :=
      congrArg (Path.mk ∘ RawText.ofString) same
    have joined : (root.join (argument a)).shown = (root.join (argument b)).shown := by
      rw [Path.shown_join, Path.shown_join, shown]
    have components := congrArg Path.components joined
    rw [Path.components_shown, Path.components_shown, first.components, second.components,
      List.map_append, List.map_append, List.append_right_inj, List.map_map, List.map_map]
      at components
    have names := congrArg (List.map (RawText.text ∘ Path.Component.segment)) components
    simpa [Function.comp_def, Path.Component.shown, Path.Component.segment] using names

end World

namespace Context

open World

variable {w : World} {cx : Context} {directory : Path} {entries : Directory} {way : Location}
  {asciidoctor : Path}

/-! ## The sources of a plan -/

/-- What is reached below a directory are the files in it. -/
theorem reaches_iff_of_directory (found : w.node directory true = .ok (.directory entries))
    (more : way ≠ []) : (∃ location, w.Reaches directory way location) ↔
      ∃ content executable, entries.get? way = some (.file content executable) := by
  obtain ⟨base, located, found⟩ := node_eq_ok.mp found
  constructor
  · rintro ⟨location, reached⟩
    cases reached with
    | itself => exact absurd rfl more
    | inside located' _ file =>
      cases located.symm.trans located'
      exact ⟨_, _, (Directory.get?_append found way).symm.trans file⟩
  · rintro ⟨content, executable, file⟩
    exact ⟨_, .inside located more ((Directory.get?_append found way).trans file)⟩

/-- What a walk of a directory finds are the files below it of such names, each once. -/
theorem exists_ways_of_directory (wf : entries.WellFormed)
    (found : w.node directory true = .ok (.directory entries)) :
    ∃ ways : List Location, Scan.found w directory "adoc" = ways.map directory.descend ∧
      ways.Nodup ∧ ∀ way, way ∈ ways ↔
        (∃ content executable, entries.get? way = some (.file content executable)) ∧
          ∃ name, way.getLast? = some name ∧ isSource name.text = true := by
  let own := directory.fileName?.getD directory.raw
  let shown (place : Location × Node) : Bool :=
    (Visit.ofPlace directory own place).isFileNamed sourceSuffix
  refine ⟨(entries.places.filter shown).map Prod.fst, ?_, ?_, fun way => ?_⟩
  · rw [Scan.found_eq, places_of_directory found, List.map_map]
    rfl
  · have ordered := (Directory.pairwise_places wf).filter shown
    refine List.pairwise_map.mpr (ordered.imp ?_)
    rintro a b before same
    exact Location.before_irrefl b.1 (same ▸ before)
  · rw [List.mem_map]
    constructor
    · rintro ⟨⟨way, node⟩, mem, rfl⟩
      obtain ⟨placed, chosen⟩ := List.mem_filter.mp mem
      obtain ⟨more, file⟩ := (Directory.mem_places wf).mp placed
      obtain ⟨kind, suffix⟩ := Bool.and_eq_true_iff.mp chosen
      have ends := List.getLast?_eq_some_getLast more
      have last : way.getLastD own = way.getLast more := by
        rw [List.getLastD_eq_getLast?, ends, Option.getD_some]
      refine ⟨?_, way.getLast more, ends, ?_⟩
      · cases node with
        | file content executable => exact ⟨content, executable, file⟩
        | link target => cases kind
        | directory inner => cases kind
      · rw [← last]
        exact suffix
    · rintro ⟨⟨content, executable, file⟩, name, ends, suffix⟩
      have more : way ≠ [] := by
        rintro rfl
        cases ends
      have last : way.getLastD own = name := by
        rw [List.getLastD_eq_getLast?, ends, Option.getD_some]
      refine ⟨(way, .file content executable), List.mem_filter.mpr
        ⟨(Directory.mem_places wf).mpr ⟨more, file⟩, Bool.and_eq_true_iff.mpr ⟨rfl, ?_⟩⟩, rfl⟩
      rw [← last] at suffix
      exact suffix

/-- The sources of manual pages are the files directly in the directory that is set for them. -/
theorem manPagesPlan_names {s m : Session} {plan : List Invocation}
    (wf : s.world.files.WellFormed) (tool : cx.asciidoctor = some asciidoctor)
    (planned : cx.manPagesPlan.run s = .ok plan m) : ∃ ways source,
      s.world.Names cx.root (cx.path cx.docs.manSrc) ways source ∧
      (∀ way, way ∈ ways ↔ ∃ name location, way = [name] ∧ isSource name.text = true ∧
        s.world.Reaches (cx.path cx.docs.manSrc) way location) ∧
      plan.map Invocation.source? =
        ways.flatMap fun way => [some (source way), some (source way)] := by
  obtain ⟨entries, found, rfl, rfl⟩ := (manPagesPlan_eq_ok tool).mp planned
  have inner := wellFormed_of_node wf found
  have reached (name : RawText) : name ∈ sourceEntries entries ↔ isSource name.text = true ∧
      ∃ location, m.world.Reaches (cx.path cx.docs.manSrc) [name] location := by
    rw [mem_sourceEntries inner, reaches_iff_of_directory found (List.cons_ne_nil _ _)]
  refine ⟨(sourceEntries entries).map fun name => [name],
    fun way => ((Path.mk cx.docs.manSrc).descend way).text, names_of_denotes ?_ ?_ ?_, ?_, ?_⟩
  · exact List.pairwise_map.mpr ((nodup_sourceEntries inner.nodup_names).imp fun other same =>
      other (List.singleton_inj.mp same))
  · intro way mem
    obtain ⟨name, listed, rfl⟩ := List.mem_map.mp mem
    obtain ⟨_, location, reaches⟩ := (reached name).mp listed
    exact ⟨location, reaches, denotes_descend wf reaches (List.cons_ne_nil _ _)⟩
  · intro way mem unicode
    obtain ⟨name, listed, rfl⟩ := List.mem_map.mp mem
    obtain ⟨_, location, reaches⟩ := (reached name).mp listed
    obtain ⟨_, named, _⟩ := reaches.inside_of_ne_nil wf (List.cons_ne_nil _ _)
    exact Path.isUnicode_of_components
      (isUnicode_of_mem_descend named (RawText.isUnicode_ofString _) unicode)
  · intro way
    rw [List.mem_map]
    constructor
    · rintro ⟨name, listed, rfl⟩
      obtain ⟨own, location, reaches⟩ := (reached name).mp listed
      exact ⟨name, location, rfl, own, reaches⟩
    · rintro ⟨name, location, rfl, own, reaches⟩
      exact ⟨name, (reached name).mpr ⟨own, location, reaches⟩, rfl⟩
  · have own (name : RawText) :
        (pageInvocations asciidoctor cx.docs name.text).map Invocation.source? =
          [some ((Path.mk cx.docs.manSrc).descend [name]).text,
            some ((Path.mk cx.docs.manSrc).descend [name]).text] := by
      rw [Path.descend_cons, Path.descend_nil, ← Path.text_join_shown]
      rfl
    rw [List.map_flatMap, sourceNames_eq_map, List.flatMap_map, List.flatMap_map]
    simp only [own]

/-- The sources of the site are the files below the directory that is set for it. -/
theorem sitePlan_names {s m : Session} {plan : List Invocation}
    (wf : s.world.files.WellFormed) (tool : cx.asciidoctor = some asciidoctor)
    (planned : cx.sitePlan.run s = .ok plan m) : ∃ ways source,
      s.world.Names cx.root (cx.path cx.docs.siteDir) ways source ∧
      (∀ way, way ∈ ways ↔ ∃ name location, way.getLast? = some name ∧
        isSource name.text = true ∧ s.world.Reaches (cx.path cx.docs.siteDir) way location) ∧
      plan.map Invocation.source? = ways.map fun way => some (source way) := by
  have plan_eq := sitePlan_eq_ok tool planned
  by_cases stands : s.world.isDirectory (cx.path cx.docs.siteDir) = true
  · rw [if_pos stands] at plan_eq
    obtain ⟨entries, found⟩ := isDirectory_iff_node.mp stands
    obtain ⟨ways, walked, nodup, mem_ways⟩ :=
      exists_ways_of_directory (wellFormed_of_node wf found) found
    have reached {way : Location} {name : RawText} (ends : way.getLast? = some name) :
        way ≠ [] ∧ ((∃ location, s.world.Reaches (cx.path cx.docs.siteDir) way location) ↔
          ∃ content executable, entries.get? way = some (.file content executable)) := by
      have more : way ≠ [] := by
        rintro rfl
        cases ends
      exact ⟨more, reaches_iff_of_directory found more⟩
    refine ⟨ways, fun way => (((cx.path cx.docs.siteDir).descend way).behind cx.root).text,
      names_of_denotes nodup ?_ ?_, ?_, ?_⟩
    · intro way mem
      obtain ⟨file, name, ends, _⟩ := (mem_ways way).mp mem
      obtain ⟨more, iff⟩ := reached ends
      obtain ⟨location, reaches⟩ := iff.mpr file
      exact ⟨location, reaches, denotes_behind wf reaches more⟩
    · intro way mem unicode
      obtain ⟨file, name, ends, _⟩ := (mem_ways way).mp mem
      obtain ⟨more, iff⟩ := reached ends
      obtain ⟨location, reaches⟩ := iff.mpr file
      obtain ⟨_, named, _⟩ := reaches.inside_of_ne_nil wf more
      exact isUnicode_behind named (RawText.isUnicode_ofString _) unicode
    · intro way
      rw [mem_ways]
      constructor
      · rintro ⟨file, name, ends, own⟩
        obtain ⟨location, reaches⟩ := (reached ends).2.mpr file
        exact ⟨name, location, ends, own, reaches⟩
      · rintro ⟨name, location, ends, own, reaches⟩
        exact ⟨(reached ends).2.mp ⟨location, reaches⟩, name, ends, own⟩
    · rw [plan_eq, walked, List.map_map, List.map_map]
      rfl
  · rw [if_neg stands] at plan_eq
    refine ⟨[], fun _ => "", ⟨List.nodup_nil, nofun, nofun, nofun⟩, fun way => ⟨nofun, ?_⟩, ?_⟩
    · rintro ⟨name, location, ends, _, reaches⟩
      exfalso
      cases reaches with
      | itself => cases ends
      | inside located nonempty file =>
        obtain ⟨sub, found⟩ := Directory.exists_directory_of_get?_append nonempty file
        exact stands (isDirectory_iff.mpr
          ⟨_, located, Directory.isDirectoryAt_iff.mpr ⟨sub, found⟩⟩)
    · rw [plan_eq]
      rfl

/-- **Plans name the files that were found.** Let Asciidoctor be there, and let root and settings be
any paths. The sources of manual pages are found directly in one directory, and those of the site
below another one; each is a regular file whose name is shown with the ending of sources, and each
such file is found. Every invocation of a plan names one of them, two for each manual page and one
for each page of the site. The argument is what is shown of a path. Joined to the root, this path
has the components of the path by which the file was found, and it leads to this very file. If the
names below the directory are Unicode, the argument is this path itself. Files with the same
argument have names that are shown alike. -/
theorem sources_denote_found_files (s : Session) (wf : s.world.files.WellFormed) (cx : Context)
    (asciidoctor : Path) (tool : cx.asciidoctor = some asciidoctor) :
    (∀ plan m, cx.manPagesPlan.run s = .ok plan m → ∃ ways source,
      s.world.Names cx.root (cx.path cx.docs.manSrc) ways source ∧
      (∀ way, way ∈ ways ↔ ∃ name location, way = [name] ∧ isSource name.text = true ∧
        s.world.Reaches (cx.path cx.docs.manSrc) way location) ∧
      plan.map Invocation.source? =
        ways.flatMap fun way => [some (source way), some (source way)]) ∧
    (∀ plan m, cx.sitePlan.run s = .ok plan m → ∃ ways source,
      s.world.Names cx.root (cx.path cx.docs.siteDir) ways source ∧
      (∀ way, way ∈ ways ↔ ∃ name location, way.getLast? = some name ∧
        isSource name.text = true ∧ s.world.Reaches (cx.path cx.docs.siteDir) way location) ∧
      plan.map Invocation.source? = ways.map fun way => some (source way)) :=
  ⟨fun _ _ => manPagesPlan_names wf tool, fun _ _ => sitePlan_names wf tool⟩

/-- A project with a manual page. -/
def manualProject : Session :=
  let page : Directory := .entry "x.adoc" (.file .empty false) .empty
  ⟨⟨.ofList [("p", .directory (.entry "man" (.directory page) .empty))], [], ⟨[]⟩⟩, none, []⟩

/-- A context with detours in its root and in the directory of the manual pages. -/
def detouredContext : Context :=
  ⟨⟨"p/."⟩, ⟨"/zig"⟩, some ⟨"/asciidoctor"⟩,
    { Settings.default with docs := { Settings.Docs.default with manSrc := "../p//man/" } }⟩

/-- The manual page is rendered, and its argument denotes it in spite of all detours. -/
theorem sources_denote_found_files_detoured :
    manualProject.world.files.WellFormed ∧
    detouredContext.asciidoctor = some ⟨"/asciidoctor"⟩ ∧
    ∃ plan m argument, detouredContext.manPagesPlan.run manualProject = .ok plan m ∧
      some argument ∈ plan.map Invocation.source? ∧
      manualProject.world.Denotes detouredContext.root ⟨"p/./../p//man/"⟩ ["x.adoc"]
        ["p", "man", "x.adoc"] argument := by
  have wf : manualProject.world.files.WellFormed := by decide
  have located : manualProject.world.locate ⟨"p/./../p//man/"⟩ true = .ok ["p", "man"] := by rfl
  obtain ⟨plan, m, planned⟩ : ∃ plan m,
      detouredContext.manPagesPlan.run manualProject = .ok plan m :=
    ⟨_, _, (manPagesPlan_eq_ok rfl).mpr ⟨_, node_eq_ok.mpr ⟨_, located, rfl⟩, rfl, rfl⟩⟩
  obtain ⟨ways, source, names, found, sources⟩ :=
    (sources_denote_found_files manualProject wf detouredContext _ rfl).1 plan m planned
  have mem : (["x.adoc"] : Location) ∈ ways :=
    (found _).mpr ⟨"x.adoc", _, rfl, by decide, .inside located (by decide) rfl⟩
  obtain ⟨location, reaches, denotes⟩ := names.denotes _ mem
    (List.forall_mem_singleton.mpr (RawText.isUnicode_ofString _))
  have same : location = (["p", "man", "x.adoc"] : Location) := by
    cases reaches with
    | inside located' _ _ =>
      cases located.symm.trans located'
      rfl
  refine ⟨wf, rfl, plan, m, source ["x.adoc"], planned, ?_, same ▸ denotes⟩
  rw [sources]
  exact List.mem_flatMap.mpr ⟨_, mem, List.mem_cons_self⟩

/-- Two files whose names are not Unicode are found in the directory of the manual pages. The plan
names both by one argument, and it denotes neither of them. -/
theorem shown_names_denote_nothing :
    let cx : Context := ⟨⟨"/"⟩, ⟨"/zig"⟩, some ⟨"/asciidoctor"⟩, .default⟩
    let s := manualPagesIn unreadablePages
    s.world.files.WellFormed ∧ unreadableName 0xFE ≠ unreadableName 0xFF ∧
    (∃ plan, cx.manPagesPlan.run s = .ok plan s ∧ plan.map Invocation.source? =
      [some "man-src/\uFFFD.adoc", some "man-src/\uFFFD.adoc", some "man-src/\uFFFD.adoc",
        some "man-src/\uFFFD.adoc", some "man-src/😀.adoc", some "man-src/😀.adoc"]) ∧
    ∀ byte ∈ [0xFE, 0xFF],
      (∃ location, s.world.Reaches (cx.path cx.docs.manSrc) [unreadableName byte] location) ∧
      ∀ location, ¬s.world.Denotes cx.root (cx.path cx.docs.manSrc) [unreadableName byte] location
        "man-src/\uFFFD.adoc" := by
  intro cx s
  have path : cx.path cx.docs.manSrc = ⟨"/man-src"⟩ := by decide +kernel
  have found : s.world.node (cx.path cx.docs.manSrc) true = .ok (.directory unreadablePages) := by
    rw [path]
    rfl
  have file : ∀ byte ∈ [0xFE, 0xFF], unreadablePages.get? [unreadableName byte] =
      some (.file .empty false) := by
    decide +kernel
  have other : ∀ byte ∈ [0xFE, 0xFF], (cx.root.join ⟨"man-src/\uFFFD.adoc"⟩).components ≠
      (cx.path cx.docs.manSrc).components ++ List.map .name [unreadableName byte] := by
    decide +kernel
  refine ⟨by decide +kernel, by decide, ⟨_, (manPagesPlan_eq_ok rfl).mpr ⟨_, found, rfl, rfl⟩, ?_⟩,
    fun byte mem => ⟨?_, fun location denotes => other byte mem denotes.components⟩⟩
  · rw [sourceNames_unreadablePages]
    decide +kernel
  · exact (reaches_iff_of_directory found (List.cons_ne_nil _ _)).mpr ⟨_, _, file byte mem⟩

end Context

end BuildRunner
