import BuildRunner.Action.Plan
import BuildRunner.Proofs.Path.Shown
import BuildRunner.Proofs.Scan.Candidates
import BuildRunner.Proofs.World.Paths

/-!
# What is planned

A plan is made from what the world holds at that moment and changes nothing but the log. Manual
pages are planned from the files directly in a directory, two invocations for each; the site is
planned from the files of a walk, and from none where there is no directory.

The name of a page is that of its source, as it is shown, with another ending. Whatever comes before
the ending, even nothing or dots, it is one step down from the directory that the page is put into.
-/

namespace BuildRunner.Context

open Run

variable {s m : Session} {cx : Context} {plan : List Invocation} {entries : Directory}
  {raw : RawText} {name : String} {asciidoctor : Path}

/-! ## Sources in a directory -/

/-- The entries of the sources directly in a directory, in the order of the names that are shown. -/
def sourceEntries (directory : Directory) : List RawText :=
  let files := directory.toList.filter fun (name, node) => node.kind = .file && isSource name.text
  (files.map Prod.fst).mergeSort fun a b => Text.leBytes (Text.utf8 a.text) (Text.utf8 b.text)

/-- What is planned is what is shown of these entries. -/
theorem sourceNames_eq_map (entries : Directory) :
    sourceNames entries = (sourceEntries entries).map RawText.text := by
  let before (a b : String) : Bool := Text.leBytes (Text.utf8 a) (Text.utf8 b)
  rw [sourceEntries, List.map_mergeSort (s := before) fun _ _ _ _ => rfl, List.map_map]
  rfl

/-- They are the files of names that are shown as those of sources. -/
theorem mem_sourceEntries_iff : raw ∈ sourceEntries entries ↔ isSource raw.text = true ∧
    ∃ content executable, (raw, Node.file content executable) ∈ entries.toList := by
  have listed : raw ∈ sourceEntries entries ↔
      ∃ node, (raw, node) ∈ entries.toList ∧ node.kind = .file ∧ isSource raw.text = true := by
    simp [sourceEntries]
  rw [listed]
  constructor
  · rintro ⟨node, mem, kind, own⟩
    cases node with
    | file content executable => exact ⟨own, content, executable, mem⟩
    | link target => cases kind
    | directory inner => cases kind
  · rintro ⟨own, content, executable, mem⟩
    exact ⟨_, mem, rfl, own⟩

/-- In a well-formed directory these are the files that are found under such names. -/
theorem mem_sourceEntries (wf : entries.WellFormed) : raw ∈ sourceEntries entries ↔
    isSource raw.text = true ∧
      ∃ content executable, entries.get? [raw] = some (.file content executable) := by
  have single (node : Node) : (raw, node) ∈ entries.toList ↔ entries.get? [raw] = some node := by
    rw [Directory.mem_toList_iff wf, Directory.get?_cons]
    simp
  simp only [mem_sourceEntries_iff, single]

theorem nodup_sourceEntries (distinct : entries.names.Nodup) : (sourceEntries entries).Nodup := by
  rw [sourceEntries, (List.mergeSort_perm _ _).nodup_iff]
  exact (List.filter_sublist.map _).nodup distinct

theorem pairwise_le_sourceEntries (entries : Directory) : (sourceEntries entries).Pairwise
    fun a b => Text.leBytes (Text.utf8 a.text) (Text.utf8 b.text) = true := by
  apply List.pairwise_mergeSort
  · exact fun a b c => Text.leBytes_trans
  · exact fun a b => Text.leBytes_total _ _

/-- A name that is planned is shown of a source. -/
theorem exists_of_mem_sourceNames (mem : name ∈ sourceNames entries) :
    ∃ raw ∈ sourceEntries entries, raw.text = name := by
  rwa [sourceNames_eq_map, List.mem_map] at mem

theorem mem_sourceNames (mem : raw ∈ sourceEntries entries) : raw.text ∈ sourceNames entries := by
  rw [sourceNames_eq_map]
  exact List.mem_map_of_mem mem

theorem isSource_of_mem_sourceNames (mem : name ∈ sourceNames entries) : isSource name = true := by
  obtain ⟨raw, listed, rfl⟩ := exists_of_mem_sourceNames mem
  exact (mem_sourceEntries_iff.mp listed).1

/-- A name that is planned is a step down, as the source's own name is. -/
theorem isSegment_of_mem_sourceNames (wf : entries.WellFormed)
    (mem : name ∈ sourceNames entries) : IsSegment (name : RawText) := by
  obtain ⟨raw, listed, rfl⟩ := exists_of_mem_sourceNames mem
  obtain ⟨_, _, _, file⟩ := (mem_sourceEntries wf).mp listed
  exact ((wf.get? file).2 raw (List.mem_singleton_self raw)).toIsSegment.shown

/-- The order in which a directory lists its entries does not matter. -/
theorem sourceNames_of_perm {entries' : Directory} (same : entries.toList.Perm entries'.toList) :
    sourceNames entries = sourceNames entries' := by
  have ordered (entries : Directory) : (sourceNames entries).Pairwise
      fun a b => Text.leBytes (Text.utf8 a) (Text.utf8 b) = true := by
    rw [sourceNames_eq_map, List.pairwise_map]
    exact pairwise_le_sourceEntries entries
  refine List.Perm.eq_of_pairwise (fun _ _ _ _ ab ba => ?_) (ordered entries) (ordered entries') ?_
  · exact Text.utf8_injective (Text.leBytes_antisymm ab ba)
  · exact (List.mergeSort_perm _ _).trans
      (((same.filter _).map _).trans (List.mergeSort_perm _ _).symm)

/-! ## The names of pages -/

theorem stem_append (source : isSource name = true) : name = stem name ++ sourceSuffix := by
  obtain ⟨front, whole⟩ := List.isSuffixOf_iff_suffix.mp source
  have length : name.length = front.length + sourceSuffix.length := by
    rw [← String.length_toList, ← whole, List.length_append, String.length_toList]
  have own : (stem name).toList = front := by
    rw [stem, String.toList_ofList, length, Nat.add_sub_cancel, ← whole, List.take_left]
  rw [← String.toList_inj, String.toList_append, own, whole]

theorem isSource_append (front : String) : isSource (front ++ sourceSuffix) = true := by
  rw [isSource, List.isSuffixOf_iff_suffix, String.toList_append]
  exact List.suffix_append _ _

/-- The stem of a name is what stands before the ending. -/
theorem stem_of_append (front : String) : stem (front ++ sourceSuffix) = front :=
  String.append_left_inj _ |>.mp (stem_append (isSource_append front)).symm

/-- A page has a name that is a step down, if its ending is one. -/
theorem isSegment_page (named : IsSegment (name : RawText)) (source : isSource name = true)
    {ending : String} (plain : IsSegment (ending : RawText)) :
    IsSegment ((stem name ++ ending : String) : RawText) := by
  have whole : (name : RawText) = (stem name : RawText) ++ (sourceSuffix : RawText) := by
    rw [← RawText.ofString_append, ← stem_append source]
  rw [RawText.ofString_append]
  have notIn (b : UInt8) (inName : b ∉ (name : RawText).bytes)
      (inEnding : b ∉ (ending : RawText).bytes) :
      b ∉ ((stem name : RawText) ++ (ending : RawText)).bytes := by
    rw [whole, RawText.bytes_append, List.mem_append, not_or] at inName
    rw [RawText.bytes_append, List.mem_append, not_or]
    exact ⟨inName.1, inEnding⟩
  have ends : (ending : RawText).bytes <:+ ((stem name : RawText) ++ (ending : RawText)).bytes :=
    List.suffix_append _ _
  have notEmpty : ¬(ending : RawText).bytes <:+ ("" : RawText).bytes := fun ends =>
    plain.ne_empty (RawText.ext (List.suffix_nil.mp ends))
  have notHere : ¬(ending : RawText).bytes <:+ ("." : RawText).bytes := by
    intro ends
    rcases List.suffix_cons_iff.mp ends with same | fewer
    · exact plain.ne_here (RawText.ext same)
    · exact notEmpty fewer
  have notUp : ¬(ending : RawText).bytes <:+ (".." : RawText).bytes := by
    intro ends
    rcases List.suffix_cons_iff.mp ends with same | fewer
    · exact plain.ne_up (RawText.ext same)
    · exact notHere fewer
  exact ⟨fun empty => notEmpty (empty ▸ ends), fun here => notHere (here ▸ ends),
    fun up => notUp (up ▸ ends), notIn _ named.no_slash plain.no_slash,
    notIn _ named.no_nul plain.no_nul⟩

/-! ## Plans -/

/-- The directory that the page at a position of a plan is put into, the one for the web first. -/
def pageDirectory (docs : Settings.Docs) (position : Nat) : String :=
  if position % 2 = 0 then docs.webManOut else docs.manOut

/-- Manual pages are rendered in pairs, one pair for each source. -/
theorem exists_source_of_getElem? {docs : Settings.Docs} {names : List String} {position : Nat}
    {invocation : Invocation}
    (found : (names.flatMap (pageInvocations asciidoctor docs))[position]? = some invocation) :
    ∃ name, names[position / 2]? = some name ∧
      (pageInvocations asciidoctor docs name)[position % 2]? = some invocation := by
  induction names generalizing position with
  | nil => cases found
  | cons name names ih =>
    match position with
    | 0 => exact ⟨name, rfl, found⟩
    | 1 => exact ⟨name, rfl, found⟩
    | position + 2 =>
      rw [Nat.add_div_right _ Nat.zero_lt_two, Nat.add_mod_right]
      exact ih found

/-- A page gets a name of its own in its directory. -/
theorem exists_page_of_getElem? {docs : Settings.Docs} {names : List String} {position : Nat}
    {invocation : Invocation}
    (sound : ∀ name ∈ names, IsSegment (name : RawText) ∧ isSource name = true)
    (found : (names.flatMap (pageInvocations asciidoctor docs))[position]? = some invocation) :
    ∃ (name format page : String), names[position / 2]? = some name ∧ IsSegment (page : RawText) ∧
      invocation.arguments = ["-b", format, ((Path.mk docs.manSrc).join ⟨name⟩).text,
        "-o", ((Path.mk (pageDirectory docs position)).join ⟨page⟩).text] := by
  obtain ⟨name, listed, own⟩ := exists_source_of_getElem? found
  obtain ⟨named, source⟩ := sound name (List.mem_of_getElem? listed)
  rcases Nat.mod_two_eq_zero_or_one position with even | odd
  · rw [even] at own
    cases own
    rw [pageDirectory, if_pos even]
    exact ⟨name, _, _, listed, isSegment_page named source (by decide), rfl⟩
  · rw [odd] at own
    cases own
    rw [pageDirectory, if_neg (by simp [odd])]
    exact ⟨name, _, _, listed, isSegment_page named source (by decide), rfl⟩

/-- Manual pages are planned only where Asciidoctor is there. -/
theorem exists_asciidoctor (planned : cx.manPagesPlan.run s = .ok plan m) :
    ∃ asciidoctor, cx.asciidoctor = some asciidoctor := by
  cases tool : cx.asciidoctor with
  | none =>
    rw [manPagesPlan, needAsciidoctor, tool] at planned
    cases planned
  | some asciidoctor => exact ⟨asciidoctor, rfl⟩

/-- Manual pages are planned from the directory that is set for them. -/
theorem manPagesPlan_eq_ok (tool : cx.asciidoctor = some asciidoctor) :
    cx.manPagesPlan.run s = .ok plan m ↔ ∃ entries,
      s.world.node (cx.path cx.docs.manSrc) true = .ok (.directory entries) ∧
      plan = (sourceNames entries).flatMap (pageInvocations asciidoctor cx.docs) ∧ m = s := by
  rw [manPagesPlan, needAsciidoctor, tool, pure_bind, bind_of_ok (run_world s), World.readDirectory]
  cases found : s.world.node (cx.path cx.docs.manSrc) true with
  | error fault => exact ⟨nofun, fun ⟨_, other, _⟩ => nomatch other⟩
  | ok node =>
    cases node with
    | directory entries =>
      constructor
      · intro planned
        cases planned
        exact ⟨entries, rfl, rfl, rfl⟩
      · rintro ⟨_, ⟨⟩, rfl, rfl⟩
        rfl
    | file content executable => exact ⟨nofun, fun ⟨_, other, _⟩ => nomatch other⟩
    | link target => exact ⟨nofun, fun ⟨_, other, _⟩ => nomatch other⟩

/-- Where its directory stands, the site is planned from the files of a walk, without a log
record. -/
theorem sitePlan_of_directory (tool : cx.asciidoctor = some asciidoctor)
    (stands : s.world.isDirectory (cx.path cx.docs.siteDir) = true) :
    cx.sitePlan.run s = .ok
      ((Scan.found s.world (cx.path cx.docs.siteDir) "adoc").map
        (siteInvocation asciidoctor cx)) s := by
  obtain ⟨entries, followed⟩ := World.isDirectory_iff_node.mp stands
  obtain ⟨visits, walked⟩ := World.exists_walk followed
  rw [sitePlan, needAsciidoctor, tool, bind_of_ok (run_world s), if_pos stands, pure_bind, walked,
    Scan.found, walked]
  rfl

/-- Where there is no directory for it, the site has no pages, and this is logged. -/
theorem sitePlan_of_no_directory (missing : s.world.isDirectory (cx.path cx.docs.siteDir) = false) :
    cx.sitePlan.run s = .ok [] (s.record (.logged ⟨.warn, .site,
      "Site directory " ++ (cx.path cx.docs.siteDir).text ++ " does not exist"⟩)) := by
  rw [sitePlan, bind_of_ok (run_world s), if_neg (by rw [missing]; exact Bool.false_ne_true)]
  rfl

/-- The site is planned from the files of a walk, or from none where there is no directory. -/
theorem run_sitePlan (tool : cx.asciidoctor = some asciidoctor) (s : Session) :
    ∃ m, cx.sitePlan.run s = .ok
      (if s.world.isDirectory (cx.path cx.docs.siteDir) then
        (Scan.found s.world (cx.path cx.docs.siteDir) "adoc").map (siteInvocation asciidoctor cx)
      else []) m := by
  by_cases stands : s.world.isDirectory (cx.path cx.docs.siteDir) = true
  · rw [if_pos stands]
    exact ⟨_, sitePlan_of_directory tool stands⟩
  · rw [if_neg stands]
    exact ⟨_, sitePlan_of_no_directory (Bool.eq_false_iff.mpr stands)⟩

theorem sitePlan_eq_ok (tool : cx.asciidoctor = some asciidoctor)
    (planned : cx.sitePlan.run s = .ok plan m) :
    plan = if s.world.isDirectory (cx.path cx.docs.siteDir) then
      (Scan.found s.world (cx.path cx.docs.siteDir) "adoc").map (siteInvocation asciidoctor cx)
    else [] := by
  obtain ⟨_, ran⟩ := run_sitePlan tool s
  cases planned.symm.trans ran
  rfl

end BuildRunner.Context
