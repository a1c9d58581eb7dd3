import BuildRunner.Proofs.Action.Plan
import Mathlib.Data.List.Nodup
import Mathlib.Data.Set.List

/-!
# Manual pages are planned in the order of their names

A file system lists the entries of a directory in an order of its own. The plan does not show it:
the sources among the entries are put in the order of their names as they are shown, and names that
are shown alike give the same invocations. What is planned is therefore a function of the set of
entries.

A source is a file by itself. A link is none, whatever it leads to, nor is a directory, and what
stands below a directory is not looked at.

The order is that of the names themselves only where they are Unicode. Other names are shown by
replacement characters, so that they can be told apart neither from each other nor from a name that
no entry has (`pages_are_planned_by_shown_name`).
-/

namespace BuildRunner.Context

variable {cx : Context} {entries : Directory} {asciidoctor : Path} {raw : RawText}

/-- The ending of sources is shown of names that end in its bytes. -/
theorem isSource_text_iff :
    isSource raw.text = true ↔ ∃ stem : RawText, stem ++ (sourceSuffix : RawText) = raw := by
  constructor
  · intro source
    obtain ⟨stem, whole, _⟩ := (RawText.text_eq_append_iff (by decide)).mp (stem_append source)
    exact ⟨stem, whole.symm⟩
  · rintro ⟨stem, rfl⟩
    rw [RawText.text_append (by decide)]
    exact isSource_append stem.text

/-- The sources are stems with the ending behind them. -/
theorem exists_sourceEntries_eq (entries : Directory) : ∃ stems : List RawText,
    sourceEntries entries = stems.map fun stem => stem ++ (sourceSuffix : RawText) := by
  have ends : sourceEntries entries ∈
      Set.range (List.map fun stem : RawText => stem ++ (sourceSuffix : RawText)) := by
    rw [Set.range_list_map]
    exact fun raw mem => isSource_text_iff.mp (mem_sourceEntries_iff.mp mem).1
  obtain ⟨stems, same⟩ := ends
  exact ⟨stems, same.symm⟩

/-- Sources that are Unicode are in the order of their own bytes. -/
theorem pairwise_lt_sourceEntries (distinct : entries.names.Nodup)
    (unicode : ∀ raw ∈ sourceEntries entries, raw.IsUnicode) :
    (sourceEntries entries).Pairwise fun a b => a.bytes < b.bytes := by
  refine ((pairwise_le_sourceEntries entries).and (nodup_sourceEntries distinct)).imp_of_mem ?_
  rintro a b ha hb ⟨le, ne⟩
  rw [← RawText.bytes_ofString, ← RawText.bytes_ofString, (unicode a ha).ofString_text,
    (unicode b hb).ofString_text] at le
  exact Text.lt_of_leBytes le (mt RawText.ext ne)

/-- The two invocations for a source, by its stem. -/
theorem pageInvocations_append (docs : Settings.Docs) (stem : String) :
    pageInvocations asciidoctor docs (stem ++ sourceSuffix) =
      [⟨asciidoctor, ["-b", docs.webFormat, ((Path.mk docs.manSrc).join ⟨stem ++ ".adoc"⟩).text,
          "-o", ((Path.mk docs.webManOut).join ⟨stem ++ ".html"⟩).text]⟩,
        ⟨asciidoctor, ["-b", docs.manFormat, ((Path.mk docs.manSrc).join ⟨stem ++ ".adoc"⟩).text,
          "-o", ((Path.mk docs.manOut).join ⟨stem ++ ".1"⟩).text]⟩] := by
  rw [pageInvocations, stem_of_append]
  rfl

/-- **Manual pages are planned in the order of their names.** Let Asciidoctor be there, and let a
directory hold some entries, each name once. In whatever order and in whatever tree the directory
that is set for manual pages lists these entries, the plan succeeds, changes nothing, and is the
same: two invocations behind each other for each source, the page for the web first and the one for
`man` second. The sources are the files, and neither links nor directories, among the entries whose
names are a stem with `.adoc` behind it, each once. They are named as they are shown, and the bytes
of what is shown increase. Where all stems are Unicode, so that they are shown as they are, the
bytes of the names increase strictly. -/
theorem manual_pages_are_planned_by_name (cx : Context) (asciidoctor : Path)
    (tool : cx.asciidoctor = some asciidoctor) (entries : Directory)
    (distinct : entries.names.Nodup) :
    ∃ stems : List RawText, stems.Nodup ∧
      (∀ stem, stem ∈ stems ↔ ∃ content executable,
        (stem ++ (".adoc" : RawText), Node.file content executable) ∈ entries.toList) ∧
      (stems.Pairwise fun a b => Text.utf8 (a.text ++ ".adoc") ≤ Text.utf8 (b.text ++ ".adoc")) ∧
      ((∀ stem ∈ stems, stem.IsUnicode) → stems.Pairwise fun a b =>
        (a ++ (".adoc" : RawText)).bytes < (b ++ (".adoc" : RawText)).bytes) ∧
      ∀ (listing : Directory) (s : Session), listing.toList.Perm entries.toList →
        s.world.node (cx.path cx.docs.manSrc) true = .ok (.directory listing) →
        cx.manPagesPlan.run s = .ok (stems.flatMap fun stem =>
          [⟨asciidoctor, ["-b", cx.docs.webFormat,
              ((Path.mk cx.docs.manSrc).join ⟨stem.text ++ ".adoc"⟩).text,
              "-o", ((Path.mk cx.docs.webManOut).join ⟨stem.text ++ ".html"⟩).text]⟩,
            ⟨asciidoctor, ["-b", cx.docs.manFormat,
              ((Path.mk cx.docs.manSrc).join ⟨stem.text ++ ".adoc"⟩).text,
              "-o", ((Path.mk cx.docs.manOut).join ⟨stem.text ++ ".1"⟩).text]⟩]) s := by
  obtain ⟨stems, same⟩ := exists_sourceEntries_eq entries
  have shown (stem : RawText) : (stem ++ (sourceSuffix : RawText)).text = stem.text ++ ".adoc" :=
    RawText.text_append (by decide) stem
  refine ⟨stems, ?_, fun stem => ?_, ?_, fun unicode => ?_, fun listing s perm found => ?_⟩
  · have each := nodup_sourceEntries distinct
    rw [same] at each
    exact List.Nodup.of_map _ each
  · have entry : stem ++ (sourceSuffix : RawText) ∈ sourceEntries entries ↔ _ :=
      mem_sourceEntries_iff
    rw [and_iff_right (isSource_text_iff.mpr ⟨stem, rfl⟩), same,
      List.mem_map_of_injective fun _ _ => RawText.append_left_inj.mp] at entry
    exact entry
  · have ordered := pairwise_le_sourceEntries entries
    rw [same, List.pairwise_map] at ordered
    refine ordered.imp fun le => ?_
    rw [shown, shown] at le
    exact Text.leBytes_iff.mp le
  · have ordered := pairwise_lt_sourceEntries distinct fun raw mem => ?_
    · rwa [same, List.pairwise_map] at ordered
    · rw [same, List.mem_map] at mem
      obtain ⟨stem, listed, rfl⟩ := mem
      exact (unicode stem listed).append (RawText.isUnicode_ofString _)
  · refine (manPagesPlan_eq_ok tool).mpr ⟨listing, found, ?_, rfl⟩
    have names : sourceNames listing = stems.map fun stem => stem.text ++ sourceSuffix := by
      rw [sourceNames_of_perm perm, sourceNames_eq_map, same, List.map_map]
      exact List.map_congr_left fun stem _ => shown stem
    rw [names, List.flatMap_map]
    simp only [pageInvocations_append]

/-- A directory with sources of odd names, and with a link and a directory of names like theirs. -/
def oddPages : Directory :=
  .ofList [("é.adoc", .file .empty false), (".adoc", .file .empty true),
    ("linked.adoc", .link ".adoc"), ("a.adoc.adoc", .file .empty false),
    ("inner.adoc", .directory (.ofList [("b.adoc", .file .empty false)]))]

/-- A world in which manual pages are written in a directory below the top. -/
def manualPagesIn (pages : Directory) : Session :=
  ⟨⟨.ofList [("man-src", .directory pages)], [], ⟨[]⟩⟩, none, []⟩

/-- The same plan is made when the directory lists the same entries from the last to the first. -/
theorem manual_pages_are_planned_by_name_reversed :
    let cx : Context := ⟨⟨"/"⟩, ⟨"/zig"⟩, some ⟨"/asciidoctor"⟩, .default⟩
    let reversed : Directory := .ofList oddPages.toList.reverse
    cx.asciidoctor = some ⟨"/asciidoctor"⟩ ∧ oddPages.names.Nodup ∧
      reversed.toList.Perm oddPages.toList ∧
      ∃ (stems : List RawText) (plan : List Invocation), ("" : RawText) ∈ stems ∧
        ("é" : RawText) ∈ stems ∧ ("linked" : RawText) ∉ stems ∧ plan.length = 2 * stems.length ∧
        cx.manPagesPlan.run (manualPagesIn oddPages) = .ok plan (manualPagesIn oddPages) ∧
        cx.manPagesPlan.run (manualPagesIn reversed) = .ok plan (manualPagesIn reversed) := by
  intro cx reversed
  have distinct : oddPages.names.Nodup := by decide
  have same : reversed.toList.Perm oddPages.toList := by decide
  have path : cx.path cx.docs.manSrc = ⟨"/man-src"⟩ := by decide +kernel
  have found (pages : Directory) :
      (manualPagesIn pages).world.node (cx.path cx.docs.manSrc) true = .ok (.directory pages) := by
    rw [path]
    rfl
  obtain ⟨stems, _, sources, _, _, planned⟩ :=
    manual_pages_are_planned_by_name cx ⟨"/asciidoctor"⟩ rfl oddPages distinct
  refine ⟨rfl, distinct, same, stems, _, ?_, ?_, ?_, ?_, planned oddPages _ .rfl (found oddPages),
    planned reversed _ same (found reversed)⟩
  · exact (sources "").mpr ⟨.empty, true, by decide⟩
  · exact (sources "é").mpr ⟨.empty, false, by decide⟩
  · intro mem
    obtain ⟨content, executable, entry⟩ := (sources "linked").mp mem
    rw [← RawText.ofString_append] at entry
    simp [oddPages, Directory.ofList, Directory.toList] at entry
  · simp [List.length_flatMap, List.map_const', Nat.mul_comm]

/-- The name of a source with a byte before the ending that stands in no text. -/
def unreadableName (byte : UInt8) : RawText :=
  ⟨byte :: Text.utf8 ".adoc"⟩

/-- A directory with two sources of such names, and one whose name is Unicode. -/
def unreadablePages : Directory :=
  .ofList [(unreadableName 0xFE, .file .empty false), (unreadableName 0xFF, .file .empty false),
    ("😀.adoc", .file .empty false)]

/-- The names that are shown are in order already. -/
theorem sourceNames_unreadablePages :
    sourceNames unreadablePages = ["\uFFFD.adoc", "\uFFFD.adoc", "😀.adoc"] := by
  refine (List.mergeSort_of_pairwise ?_).trans ?_ <;> decide +kernel

/-- The order of the plan is not that of the names: the one that comes first by its bytes is planned
last. Two files are planned as if they were one, by a name that no file has. -/
theorem pages_are_planned_by_shown_name :
    let cx : Context := ⟨⟨"/"⟩, ⟨"/zig"⟩, some ⟨"/asciidoctor"⟩, .default⟩
    let s := manualPagesIn unreadablePages
    s.world.files.WellFormed ∧ unreadableName 0xFE ≠ unreadableName 0xFF ∧
    ("😀.adoc" : RawText).bytes < (unreadableName 0xFE).bytes ∧
    (∃ plan, cx.manPagesPlan.run s = .ok plan s ∧
      plan.map (fun invocation => invocation.arguments[2]?) =
        [some "man-src/\uFFFD.adoc", some "man-src/\uFFFD.adoc", some "man-src/\uFFFD.adoc",
          some "man-src/\uFFFD.adoc", some "man-src/😀.adoc", some "man-src/😀.adoc"]) ∧
    s.world.node (cx.path "man-src/\uFFFD.adoc") true = .error .notFound := by
  intro cx s
  have path : cx.path cx.docs.manSrc = ⟨"/man-src"⟩ := by decide +kernel
  have found : s.world.node (cx.path cx.docs.manSrc) true = .ok (.directory unreadablePages) := by
    rw [path]
    rfl
  refine ⟨by decide +kernel, by decide, by decide +kernel,
    ⟨_, (manPagesPlan_eq_ok rfl).mpr ⟨_, found, rfl, rfl⟩, ?_⟩, ?_⟩
  · rw [sourceNames_unreadablePages]
    decide +kernel
  · have missing : cx.path "man-src/\uFFFD.adoc" = ⟨"/man-src/\uFFFD.adoc"⟩ := by decide +kernel
    rw [missing]
    rfl

end BuildRunner.Context
