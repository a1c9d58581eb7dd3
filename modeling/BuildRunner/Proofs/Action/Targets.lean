import BuildRunner.Proofs.Action.Sources
import BuildRunner.Proofs.World.Files
import Mathlib.Data.List.Nodup

/-!
# What pages overwrite

Each page of a plan gets a name that no other page of the plan has, and that no source has: the
names of pages for the web, of pages for `man` and of sources end in three different characters, and
pages of one kind have the stems of different sources. So the directories may coincide or lie in
each other, and stems may look as if they had an ending already.

A path is known by its last name here, and so is the place in the tree that the path stands for.
What the rest of the path leads to is not looked at. Therefore pages that are written in their
places leave every source and every other page as it is, and change nothing in what is planned.

A link in the place of a page is followed when the page is written. It may lead to a source, which
is then overwritten, or to a place where a source can be, and then one comes to be there.
-/

namespace BuildRunner

/-- The argument by which an invocation says where its page is put. -/
def Invocation.target? (invocation : Invocation) : Option String :=
  invocation.arguments[4]?

/-- No two sources directly in a directory have names that are shown alike. -/
def World.SourcesShownApart (w : World) (directory : Path) : Prop :=
  ∀ a b, (∃ location, w.Reaches directory [a] location) →
    (∃ location, w.Reaches directory [b] location) →
    Context.isSource a.text = true → a.text = b.text → a = b

namespace Context

open World

variable {w w' : World} {s s' m m' : Session} {cx : Context} {asciidoctor : Path}
  {docs : Settings.Docs} {plan plan' : List Invocation} {entries entries' : Directory}
  {names : List String} {others : List RawText} {name : String} {raw : RawText}
  {page : String × String}

/-! ## The names of pages -/

/-- The pages of a source: the directory for each, and its name there. -/
def pages (docs : Settings.Docs) (name : String) : List (String × String) :=
  [(docs.webManOut, stem name ++ ".html"), (docs.manOut, stem name ++ ".1")]

/-- Where a page is put, as the plan gives it. -/
def target (page : String × String) : String :=
  ((Path.mk page.1).join ⟨page.2⟩).text

theorem mem_pages : page ∈ pages docs name ↔
    page = (docs.webManOut, stem name ++ ".html") ∨ page = (docs.manOut, stem name ++ ".1") := by
  rw [pages, List.mem_cons, List.mem_singleton]

/-- The pages of a plan are those of its sources. -/
theorem target?_flatMap (docs : Settings.Docs) (names : List String) :
    (names.flatMap (pageInvocations asciidoctor docs)).map Invocation.target? =
      ((names.flatMap (pages docs)).map target).map some := by
  rw [List.map_map, List.map_flatMap, List.map_flatMap]
  rfl

/-- Names are different if their endings end in different characters. -/
theorem append_ne_append {a b ending ending' : String} (nonempty : ending ≠ "")
    (nonempty' : ending' ≠ "") (differ : ending.toList.getLast? ≠ ending'.toList.getLast?) :
    a ++ ending ≠ b ++ ending' := by
  intro same
  rw [← Text.getLast?_toList_append a nonempty, same,
    Text.getLast?_toList_append b nonempty'] at differ
  exact differ rfl

/-- A page is no source. -/
theorem isSource_page (mem : page ∈ pages docs name) : isSource page.2 = false := by
  refine Bool.eq_false_iff.mpr fun source => ?_
  have ends := stem_append source
  rcases mem_pages.mp mem with rfl | rfl
  · exact append_ne_append (by decide) (by decide) (by decide) ends
  · exact append_ne_append (by decide) (by decide) (by decide) ends

theorem isSegment_of_mem_pages (named : IsSegment (name : RawText)) (source : isSource name = true)
    (mem : page ∈ pages docs name) : IsSegment (page.2 : RawText) := by
  rcases mem_pages.mp mem with rfl | rfl
  · exact isSegment_page named source (by decide)
  · exact isSegment_page named source (by decide)

/-- Pages of different sources have different names. -/
theorem page_ne_page {other : String} {page' : String × String} (source : isSource name = true)
    (source' : isSource other = true) (differ : name ≠ other) (mem : page ∈ pages docs name)
    (mem' : page' ∈ pages docs other) : page.2 ≠ page'.2 := by
  have stems : stem name ≠ stem other := fun same =>
    differ (by rw [stem_append source, same, ← stem_append source'])
  rcases mem_pages.mp mem with rfl | rfl <;> rcases mem_pages.mp mem' with rfl | rfl
  · exact fun same => stems ((String.append_left_inj _).mp same)
  · exact append_ne_append (by decide) (by decide) (by decide)
  · exact append_ne_append (by decide) (by decide) (by decide)
  · exact fun same => stems ((String.append_left_inj _).mp same)

/-- No two pages of a plan have the same name. -/
theorem nodup_pages (docs : Settings.Docs) (distinct : names.Nodup)
    (sources : ∀ name ∈ names, isSource name = true) :
    ((names.flatMap (pages docs)).map Prod.snd).Nodup := by
  refine List.pairwise_map.mpr
    (List.pairwise_flatMap.mpr ⟨fun name _ => ?_, distinct.imp_of_mem ?_⟩)
  · rw [pages, List.pairwise_pair]
    exact append_ne_append (by decide) (by decide) (by decide)
  · intro a b ha hb differ page mem page' mem'
    exact page_ne_page (sources a ha) (sources b hb) differ mem mem'

/-- A page is known by its name among the pages of a source. -/
theorem eq_of_mem_pages {page' : String × String} (mem : page ∈ pages docs name)
    (mem' : page' ∈ pages docs name) (same : page.2 = page'.2) : page = page' := by
  rcases mem_pages.mp mem with rfl | rfl <;> rcases mem_pages.mp mem' with rfl | rfl
  · rfl
  · exact absurd same (append_ne_append (by decide) (by decide) (by decide))
  · exact absurd same (append_ne_append (by decide) (by decide) (by decide))
  · rfl

theorem fileName?_target (named : IsSegment (page.2 : RawText)) :
    (Path.mk (target page)).fileName? = some (page.2 : RawText) := by
  rw [target, Path.mk_text_join]
  exact Path.fileName?_join named _

/-- Behind the root, the name of a page comes behind its directory. -/
theorem path_target (cx : Context) (page : String × String) :
    cx.path (target page) = (cx.path page.1).join ⟨page.2⟩ := by
  rw [path, target, Path.mk_text_join]
  exact (Path.join_assoc _ _ _).symm

/-- Pages as plans have them: each has a name that is a step down and is not that of a source, and
is known by it. -/
structure Planned (all : List (String × String)) : Prop where
  isSegment : ∀ page ∈ all, IsSegment (page.2 : RawText)
  notSource : ∀ page ∈ all, isSource page.2 = false
  known : ∀ page ∈ all, ∀ page' ∈ all, page.2 = page'.2 → page = page'

theorem planned_pages (docs : Settings.Docs)
    (sources : ∀ name ∈ names, IsSegment (name : RawText) ∧ isSource name = true) :
    Planned (names.flatMap (pages docs)) := by
  refine ⟨fun page mem => ?_, fun page mem => ?_, fun page mem page' mem' same => ?_⟩
  · obtain ⟨name, own, mem⟩ := List.mem_flatMap.mp mem
    exact isSegment_of_mem_pages (sources name own).1 (sources name own).2 mem
  · obtain ⟨name, _, mem⟩ := List.mem_flatMap.mp mem
    exact isSource_page mem
  · obtain ⟨name, own, mem⟩ := List.mem_flatMap.mp mem
    obtain ⟨name', own', mem'⟩ := List.mem_flatMap.mp mem'
    by_cases differ : name = name'
    · subst differ
      exact eq_of_mem_pages mem mem' same
    · exact absurd same (page_ne_page (sources name own).2 (sources name' own').2 differ mem mem')

/-! ## Names of sources -/

/-- An argument that is shown of a path to a file ends as what is shown of the way to the file. -/
theorem fileName?_of_denotes {root directory : Path} {way location : Location} {argument : RawText}
    (denotes : w.Denotes root directory way location argument) (ends : way.getLast? = some raw) :
    ∃ last, (root.join ⟨argument.text⟩).fileName? = some last ∧ last.text = raw.text := by
  obtain ⟨front, rfl⟩ := List.getLast?_eq_some_iff.mp ends
  have own : (root.join ⟨argument⟩).fileName? = some raw := by
    rw [Path.fileName?, denotes.components, List.map_append, List.map_singleton,
      ← List.append_assoc, List.getLast?_concat]
  -- joined to the root, the argument and the path are shown alike
  have alike : (root.join ⟨argument.text⟩).shown = (root.join ⟨argument⟩).shown := by
    rw [Path.shown_join, Path.shown_join, Path.shown_mk]
    rfl
  have last := Path.fileName?_shown (root.join ⟨argument.text⟩)
  rw [alike, Path.fileName?_shown, own, Option.map_some, eq_comm, Option.map_eq_some_iff] at last
  obtain ⟨last, found, same⟩ := last
  exact ⟨last, found, RawText.ofString_inj.mp same⟩

/-- What a plan names as a source ends in the name of a source. -/
theorem exists_name_of_source? (wf : s.world.files.WellFormed)
    (tool : cx.asciidoctor = some asciidoctor) (planned : cx.manPagesPlan.run s = .ok plan m)
    (planned' : cx.sitePlan.run s = .ok plan' m') {source : String}
    (mem : some source ∈ (plan ++ plan').map Invocation.source?) :
    ∃ last, (cx.root.join ⟨source⟩).fileName? = some last ∧ isSource last.text = true := by
  rw [List.map_append, List.mem_append] at mem
  rcases mem with manual | site
  · obtain ⟨ways, argument, found, reached, sources⟩ := manPagesPlan_names wf tool planned
    rw [sources, List.mem_flatMap] at manual
    obtain ⟨way, listed, own⟩ := manual
    obtain rfl : source = argument way := by simpa using own
    obtain ⟨name, _, rfl, isSource, _⟩ := (reached way).mp listed
    obtain ⟨_, _, _, denotes, shown⟩ := found.shows _ listed
    obtain ⟨last, ends, same⟩ := fileName?_of_denotes denotes rfl
    exact ⟨last, shown ▸ ends, same ▸ isSource⟩
  · obtain ⟨ways, argument, found, reached, sources⟩ := sitePlan_names wf tool planned'
    rw [sources, List.mem_map] at site
    obtain ⟨way, listed, own⟩ := site
    obtain rfl : argument way = source := Option.some.inj own
    obtain ⟨name, _, named, isSource, _⟩ := (reached way).mp listed
    obtain ⟨_, _, _, denotes, shown⟩ := found.shows _ listed
    obtain ⟨last, ends, same⟩ := fileName?_of_denotes denotes named
    exact ⟨last, shown ▸ ends, same ▸ isSource⟩

/-! ## Plans after files were put under other names -/

/-- What has the name of a source is as it was. -/
theorem face?_of_fills {location : Location} (fills : entries.Fills others entries')
    (pages : ∀ raw ∈ others, isSource raw.text = false) (ends : location.getLast? = some raw)
    (source : isSource raw.text = true) : entries'.face? location = entries.face? location := by
  refine fills.face?_eq fun page mem same => ?_
  cases ends.symm.trans same
  rw [pages raw mem] at source
  cases source

/-- A file with the name of a source was there before. -/
theorem get?_of_fills {way : Location} {content : ByteArray} {executable : Bool}
    (fills : entries.Fills others entries') (pages : ∀ raw ∈ others, isSource raw.text = false)
    (ends : way.getLast? = some raw) (source : isSource raw.text = true)
    (file : entries'.get? way = some (.file content executable)) :
    entries.get? way = some (.file content executable) := by
  refine Directory.get?_of_face? ?_ (by simp [Node.kind])
  rw [← face?_of_fills fills pages ends source, Directory.face?, file, Option.map_some]

theorem manPagesPlan_subset (wf : s.world.files.WellFormed) (wf' : s'.world.files.WellFormed)
    (fills : s.world.Fills others s'.world) (pages : ∀ raw ∈ others, isSource raw.text = false)
    (tool : cx.asciidoctor = some asciidoctor) (planned : cx.manPagesPlan.run s = .ok plan m)
    (planned' : cx.manPagesPlan.run s' = .ok plan' m') : plan' ⊆ plan := by
  obtain ⟨entries, found, rfl, _⟩ := (manPagesPlan_eq_ok tool).mp planned
  obtain ⟨entries', found', rfl, _⟩ := (manPagesPlan_eq_ok tool).mp planned'
  obtain ⟨own, same, below⟩ := fills.node_directory found'
  cases found.symm.trans same
  intro invocation mem
  obtain ⟨name, listed, rendered⟩ := List.mem_flatMap.mp mem
  obtain ⟨raw, own, rfl⟩ := exists_of_mem_sourceNames listed
  obtain ⟨source, content, executable, file⟩ :=
    (mem_sourceEntries (wellFormed_of_node wf' found')).mp own
  have before := (mem_sourceEntries (wellFormed_of_node wf found)).mpr
    ⟨source, content, executable, get?_of_fills below pages rfl source file⟩
  exact List.mem_flatMap.mpr ⟨raw.text, mem_sourceNames before, rendered⟩

theorem sitePlan_subset (wf : s.world.files.WellFormed) (wf' : s'.world.files.WellFormed)
    (fills : s.world.Fills others s'.world) (pages : ∀ raw ∈ others, isSource raw.text = false)
    (tool : cx.asciidoctor = some asciidoctor) (planned : cx.sitePlan.run s = .ok plan m)
    (planned' : cx.sitePlan.run s' = .ok plan' m') : plan' ⊆ plan := by
  have plan_eq := sitePlan_eq_ok tool planned
  have plan'_eq := sitePlan_eq_ok tool planned'
  by_cases stands : s'.world.isDirectory (cx.path cx.docs.siteDir) = true
  · obtain ⟨entries', found'⟩ := isDirectory_iff_node.mp stands
    obtain ⟨entries, found, below⟩ := fills.node_directory found'
    obtain ⟨ways, walked, _, mem_ways⟩ :=
      exists_ways_of_directory (wellFormed_of_node wf found) found
    obtain ⟨ways', walked', _, mem_ways'⟩ :=
      exists_ways_of_directory (wellFormed_of_node wf' found') found'
    rw [plan_eq, plan'_eq, if_pos stands, if_pos (isDirectory_iff_node.mpr ⟨entries, found⟩),
      walked, walked']
    refine List.map_subset _ (List.map_subset _ fun way mem => ?_)
    obtain ⟨⟨content, executable, file⟩, name, ends, source⟩ := (mem_ways' way).mp mem
    exact (mem_ways way).mpr
      ⟨⟨content, executable, get?_of_fills below pages ends source file⟩, name, ends, source⟩
  · rw [plan'_eq, if_neg stands]
    exact List.nil_subset plan

/-! ## Targets that are different paths -/

/-- Two arguments are different paths, by themselves and behind the root. -/
def Apart (cx : Context) (a b : String) : Prop :=
  (Path.mk a).components ≠ (Path.mk b).components ∧ (cx.path a).components ≠ (cx.path b).components

/-- An argument with a last name is another path than one that has another last name behind the
root. -/
theorem apart_of_fileName? {a b : String} {last : RawText} (own : (Path.mk a).fileName? = some raw)
    (ends : (cx.path b).fileName? = some last) (differ : raw ≠ last) : cx.Apart a b := by
  have behind : (cx.path a).fileName? = some raw := Path.fileName?_join_of_eq_some own cx.root
  constructor
  · intro same
    rw [Path.fileName?_congr same] at own
    have other : (cx.path b).fileName? = some raw := Path.fileName?_join_of_eq_some own cx.root
    exact differ (Option.some.inj (other.symm.trans ends))
  · intro same
    rw [Path.fileName?_congr same, ends] at behind
    exact differ (Option.some.inj behind).symm

/-- Pages of different names have targets that are different paths. -/
theorem apart_of_name_ne {page page' : String × String} (named : IsSegment (page.2 : RawText))
    (named' : IsSegment (page'.2 : RawText)) (differ : page.2 ≠ page'.2) :
    cx.Apart (target page) (target page') :=
  apart_of_fileName? (fileName?_target named)
    (Path.fileName?_join_of_eq_some (fileName?_target named') cx.root)
    (mt RawText.ofString_inj.mp differ)

/-- The targets of a plan are different paths if the names of its sources are different. -/
theorem pairwise_apart_iff (cx : Context) (docs : Settings.Docs)
    (sources : ∀ name ∈ names, IsSegment (name : RawText) ∧ isSource name = true) :
    ((names.flatMap (pages docs)).map target).Pairwise cx.Apart ↔ names.Nodup := by
  constructor
  · intro apart
    rw [List.pairwise_map, List.pairwise_flatMap] at apart
    refine apart.2.imp fun all same => ?_
    subst same
    exact (all _ List.mem_cons_self _ List.mem_cons_self).1 rfl
  · intro distinct
    have segments := (planned_pages docs sources).isSegment
    have each := List.pairwise_map.mp
      (nodup_pages docs distinct fun name own => (sources name own).2)
    exact List.pairwise_map.mpr (each.imp_of_mem fun ha hb differ =>
      apart_of_name_ne (segments _ ha) (segments _ hb) differ)

/-- The names of sources are shown as different ones if no two sources are shown alike. -/
theorem nodup_sourceNames_iff {directory : Path} (wf : w.files.WellFormed)
    (found : w.node directory true = .ok (.directory entries)) :
    (sourceNames entries).Nodup ↔ w.SourcesShownApart directory := by
  have inner := wellFormed_of_node wf found
  rw [sourceNames_eq_map, List.nodup_map_iff_inj_on (nodup_sourceEntries inner.nodup_names)]
  simp only [mem_sourceEntries inner, ← reaches_iff_of_directory found (List.cons_ne_nil _ _)]
  constructor
  · exact fun injective a b ha hb source same =>
      injective a ⟨source, ha⟩ b ⟨same ▸ source, hb⟩ same
  · exact fun apart a ha b hb same => apart a b ha.2 hb.2 ha.1 same

/-- The pages of a plan. -/
theorem exists_planned (wf : s.world.files.WellFormed)
    (tool : cx.asciidoctor = some asciidoctor) (planned : cx.manPagesPlan.run s = .ok plan m) :
    ∃ all, Planned all ∧ plan.map Invocation.target? = (all.map target).map some ∧
      ((all.map target).Pairwise cx.Apart ↔
        s.world.SourcesShownApart (cx.path cx.docs.manSrc)) := by
  obtain ⟨entries, found, rfl, _⟩ := (manPagesPlan_eq_ok tool).mp planned
  have inner := wellFormed_of_node wf found
  have sources : ∀ name ∈ sourceNames entries, IsSegment (name : RawText) ∧ isSource name = true :=
    fun name mem => ⟨isSegment_of_mem_sourceNames inner mem, isSource_of_mem_sourceNames mem⟩
  exact ⟨_, planned_pages cx.docs sources, target?_flatMap cx.docs _,
    (pairwise_apart_iff cx cx.docs sources).trans (nodup_sourceNames_iff wf found)⟩

/-! ## What pages overwrite -/

section Planned

variable {all : List (String × String)} {location : Location}

/-- Writing pages, without links in their places, puts files under their names. -/
theorem Planned.fills (h : Planned all) {targets : List String}
    (chosen : ∀ text ∈ targets, ∃ page ∈ all, target page = text ∧ (page.2 : RawText) ∈ others)
    (free : w.Unlinked (targets.map cx.path)) (written : WritesEach (targets.map cx.path) w w') :
    w.Fills others w' := by
  refine written.fills free fun p mem => ?_
  obtain ⟨text, listed, rfl⟩ := List.mem_map.mp mem
  obtain ⟨page, own, rfl, named⟩ := chosen text listed
  exact ⟨cx.path page.1, page.2, path_target cx page, h.isSegment page own, named⟩

/-- What stands in the place of a page is not touched when other pages are written. -/
theorem Planned.face?_eq (h : Planned all) (mem : page ∈ all) {old : Option Node}
    (placed : w.place (cx.path (target page)) = .ok (location, old))
    (free : w.Unlinked (((all.map target).filter (· ≠ target page)).map cx.path))
    (written : WritesEach (((all.map target).filter (· ≠ target page)).map cx.path) w w') :
    w'.files.face? location = w.files.face? location := by
  rw [path_target] at placed
  have ends := getLast?_of_place (h.isSegment page mem) placed
  let names := (all.filter (·.2 ≠ page.2)).map fun other => (other.2 : RawText)
  have fills : w.Fills names w' := by
    refine h.fills (fun text listed => ?_) free written
    obtain ⟨target, differ⟩ := List.mem_filter.mp listed
    obtain ⟨other, own, rfl⟩ := List.mem_map.mp target
    refine ⟨other, own, rfl, List.mem_map.mpr ⟨other, List.mem_filter.mpr ⟨own, ?_⟩, rfl⟩⟩
    refine decide_eq_true fun same => of_decide_eq_true differ ?_
    rw [h.known other own page mem same]
  refine fills.files.face?_eq fun name listed same => ?_
  obtain ⟨other, chosen, rfl⟩ := List.mem_map.mp listed
  refine of_decide_eq_true (List.mem_filter.mp chosen).2 ?_
  exact RawText.ofString_inj.mp (Option.some.inj (same.symm.trans ends))

end Planned

/-- **Pages overwrite nothing.** Let the manual pages of a project be planned, in whatever tree and
with whatever settings. Then the site can be planned too, and the pages have targets with these
properties. No two are the same path, unless two sources have names that are shown alike: then these
have the same targets, and other targets are still other paths. No target is a path that the plan or
that of the site names as a source, and none has a name that ends as those of sources do. Where
there are no links in the places of pages, what stands in the place of one is not touched when pages
with other targets are written, and whatever is written to the targets, every file with the name of
a source is as it was, and neither plan, made again, has an invocation that it did not have. -/
theorem pages_overwrite_nothing (cx : Context) (s : Session) (wf : s.world.files.WellFormed)
    (plan : List Invocation) (m : Session) (planned : cx.manPagesPlan.run s = .ok plan m) :
    ∃ (targets : List String) (site : List Invocation) (e : Session),
      plan.map Invocation.target? = targets.map some ∧ cx.sitePlan.run s = .ok site e ∧
      (targets.Pairwise cx.Apart ↔ s.world.SourcesShownApart (cx.path cx.docs.manSrc)) ∧
      (∀ target ∈ targets,
        (∃ name, (Path.mk target).fileName? = some name ∧ isSource name.text = false) ∧
        (∀ other ∈ targets, other ≠ target → cx.Apart target other) ∧
        (∀ source, some source ∈ (plan ++ site).map Invocation.source? → cx.Apart target source) ∧
        ∀ w w' location old, w.place (cx.path target) = .ok (location, old) →
          w.Unlinked ((targets.filter (· ≠ target)).map cx.path) →
          WritesEach ((targets.filter (· ≠ target)).map cx.path) w w' →
          w'.files.face? location = w.files.face? location) ∧
      (s.world.Unlinked (targets.map cx.path) →
        ∀ s', WritesEach (targets.map cx.path) s.world s'.world →
          (∀ location name, location.getLast? = some name → isSource name.text = true →
            s'.world.files.face? location = s.world.files.face? location) ∧
          (∀ plan' e', cx.manPagesPlan.run s' = .ok plan' e' → plan' ⊆ plan) ∧
          ∀ site' e', cx.sitePlan.run s' = .ok site' e' → site' ⊆ site) := by
  obtain ⟨asciidoctor, tool⟩ := exists_asciidoctor planned
  obtain ⟨all, pages, targets, apart⟩ := exists_planned wf tool planned
  obtain ⟨e, planned'⟩ := run_sitePlan tool s
  refine ⟨_, _, e, targets, planned', apart, fun _ mem => ?_, fun free s' written => ?_⟩
  · obtain ⟨page, own, rfl⟩ := List.mem_map.mp mem
    have named := pages.isSegment page own
    have ends := fileName?_target named
    refine ⟨⟨page.2, ends, ?_⟩, fun _ mem differ => ?_, fun source named => ?_,
      fun w w' location old placed free written => pages.face?_eq own placed free written⟩
    · rw [RawText.text_ofString]
      exact pages.notSource page own
    · obtain ⟨page', own', rfl⟩ := List.mem_map.mp mem
      refine apart_of_name_ne named (pages.isSegment page' own') fun same => differ ?_
      rw [pages.known page own page' own' same]
    · obtain ⟨last, ends', isSource⟩ := exists_name_of_source? wf tool planned planned' named
      refine apart_of_fileName? ends ends' fun same => ?_
      rw [← same, RawText.text_ofString, pages.notSource page own] at isSource
      cases isSource
  · have fills : s.world.Fills (all.map fun page => (page.2 : RawText)) s'.world := by
      refine pages.fills (fun text listed => ?_) free written
      obtain ⟨page, own, rfl⟩ := List.mem_map.mp listed
      exact ⟨page, own, rfl, List.mem_map_of_mem own⟩
    have others : ∀ raw ∈ all.map fun page => (page.2 : RawText), isSource raw.text = false := by
      intro raw mem
      obtain ⟨page, own, rfl⟩ := List.mem_map.mp mem
      rw [RawText.text_ofString]
      exact pages.notSource page own
    have wf' := written.wellFormed wf
    exact ⟨fun _ _ => face?_of_fills fills.files others,
      fun _ _ => manPagesPlan_subset wf wf' fills others tool planned,
      fun _ _ => sitePlan_subset wf wf' fills others tool planned'⟩

/-- A project in which everything lies in one directory, with a source that looks like a page. -/
def crowdedPages : Session :=
  ⟨⟨.ofList [("d", .directory (.ofList [("a.html.adoc", .file ⟨#[61]⟩ false)]))], [], ⟨[]⟩⟩,
    none, []⟩

/-- A context in which all directories are the same. -/
def crowdedContext : Context :=
  ⟨⟨"/"⟩, ⟨"/zig"⟩, some ⟨"/asciidoctor"⟩,
    { Settings.default with docs := { Settings.Docs.default with
      siteDir := "d", manSrc := "./d", manOut := "/d/", webManOut := "d/." } }⟩

/-- A page is written beside its source. The source is as it was, and no more is planned. -/
theorem pages_overwrite_nothing_crowded :
    crowdedPages.world.files.WellFormed ∧ ∃ plan m w,
      crowdedContext.manPagesPlan.run crowdedPages = .ok plan m ∧
      plan.map Invocation.target? = [some "d/./a.html.html", some "/d/a.html.1"] ∧
      crowdedPages.world.write (crowdedContext.path "d/./a.html.html") .empty false = .ok w ∧
      w.files.face? ["d", "a.html.adoc"] = some (.file ⟨#[61]⟩ false) ∧
      ∀ s', s'.world = w → ∀ plan' e', crowdedContext.manPagesPlan.run s' = .ok plan' e' →
        plan' ⊆ plan := by
  have wf : crowdedPages.world.files.WellFormed := by decide
  obtain ⟨entries, found, names⟩ : ∃ entries,
      crowdedPages.world.node (crowdedContext.path "./d") true = .ok (.directory entries) ∧
        sourceNames entries = ["a.html.adoc"] :=
    ⟨_, by rfl, by decide +kernel⟩
  have planned : crowdedContext.manPagesPlan.run crowdedPages = .ok _ _ :=
    (manPagesPlan_eq_ok rfl).mpr ⟨entries, found, rfl, rfl⟩
  rw [names] at planned
  obtain ⟨targets, _, _, own, _, _, _, written⟩ :=
    pages_overwrite_nothing crowdedContext crowdedPages wf _ _ planned
  obtain rfl : ["d/./a.html.html", "/d/a.html.1"] = targets :=
    (List.map_inj_right fun _ _ => Option.some.inj).mp (Eq.trans (by decide +kernel) own)
  have web : crowdedPages.world.place (crowdedContext.path "d/./a.html.html") =
      .ok (["d", "a.html.html"], none) := by rfl
  have man : crowdedPages.world.place (crowdedContext.path "/d/a.html.1") =
      .ok (["d", "a.html.1"], none) := by rfl
  have free : crowdedPages.world.Unlinked
      (["d/./a.html.html", "/d/a.html.1"].map crowdedContext.path) := by
    intro p mem location target placed
    rcases List.mem_pair.mp mem with rfl | rfl
    · cases web.symm.trans placed
    · cases man.symm.trans placed
  have put : crowdedPages.world.write (crowdedContext.path "d/./a.html.html") .empty false =
      .ok (crowdedPages.world.withFiles (crowdedPages.world.files.alter
        (fun _ => some (.file .empty false)) ["d", "a.html.html"])) := by
    rw [write, if_neg (by decide), target_of_free linkLimit (by rfl) web]
    rfl
  have one : WritesEach (["d/./a.html.html", "/d/a.html.1"].map crowdedContext.path)
      crowdedPages.world _ := .single ⟨_, List.mem_cons_self, _, _, put⟩
  refine ⟨wf, _, _, _, planned, by decide +kernel, put, ?_, fun s' same => ?_⟩
  · exact (written free ⟨_, none, []⟩ one).1 ["d", "a.html.adoc"] "a.html.adoc" rfl (by decide)
  · exact (written free s' (same ▸ one)).2.1

/-- A project with one source and two links in the places of its pages: one to the source, and one
to a place beside it where nothing is. -/
def linkedPages : Session :=
  let sources : Directory := .ofList [("a.adoc", .file ⟨#[61]⟩ false)]
  let man : Directory := .ofList [("man1", .directory (.ofList [("a.1",
    .link "../../man-src/a.adoc")]))]
  let docs : Directory := .ofList [("man", .directory (.ofList [("a.html",
    .link "../../man-src/b.adoc")]))]
  ⟨⟨.ofList [("man-src", .directory sources), ("man", .directory man), ("docs", .directory docs)],
    [], ⟨[]⟩⟩, none, []⟩

/-- The project when an empty file is put into it. -/
def linkedPagesWith (location : Location) : World :=
  linkedPages.world.withFiles
    (linkedPages.world.files.alter (fun _ => some (.file .empty false)) location)

/-- One link leads to the source. -/
theorem write_linkedPages_source :
    linkedPages.world.write ⟨"/man/man1/a.1"⟩ .empty false =
      .ok (linkedPagesWith ["man-src", "a.adoc"]) := by
  have met : linkedPages.world.files.advance true [] (Path.mk "/man/man1/a.1").steps =
      .link ["man", "man1"] "../../man-src/a.adoc" [] := by rfl
  have behind : linkedPages.world.files.resolve true 39 ["man", "man1"]
      ((Path.mk "../../man-src/a.adoc").steps ++ []) = .ok ["man-src", "a.adoc"] :=
    Directory.resolve_of_arrived (by rfl)
  have located : linkedPages.world.locate ⟨"/man/man1/a.1"⟩ true = .ok ["man-src", "a.adoc"] :=
    locate_eq_ok.mpr ⟨by decide,
      locateSteps_eq_ok.mpr ⟨[], rfl, (Directory.resolve_of_link met).trans behind⟩⟩
  rw [write, if_neg (by decide), target_of_locate linkLimit located]
  rfl

/-- The other one leads to a free place. -/
theorem write_linkedPages_free :
    linkedPages.world.write ⟨"/docs/man/a.html"⟩ .empty false =
      .ok (linkedPagesWith ["man-src", "b.adoc"]) := by
  have missing : linkedPages.world.locate ⟨"/docs/man/a.html"⟩ true = .error .notFound := by rfl
  have placed : linkedPages.world.place ⟨"/docs/man/a.html"⟩ =
      .ok (["docs", "man", "a.html"], some (.link "../../man-src/b.adoc")) := by rfl
  have joined : (pathOf ["docs", "man"]).join ⟨"../../man-src/b.adoc"⟩ =
      ⟨"/docs/man/../../man-src/b.adoc"⟩ := by decide
  have beside : linkedPages.world.target linkLimit ⟨"/docs/man/a.html"⟩ =
      .ok ["man-src", "b.adoc"] := by
    have limit : linkLimit = 39 + 1 := rfl
    have above : (["docs", "man", "a.html"] : Location).dropLast = (["docs", "man"] : Location) :=
      rfl
    rw [limit, target_of_link 39 missing placed, above, joined]
    exact target_of_free 39 (by rfl) (by rfl)
  rw [write, if_neg (by decide), beside]
  rfl

/-- Pages can overwrite a source and each other. Links in their places are followed: the page for
`man` overwrites the source it is made from, and the page for the web becomes a source, so that more
is planned. And where two sources are shown alike, the pages of one are put where those of the other
are. -/
theorem pages_overwrite_through_links_and_names :
    let cx : Context := ⟨⟨"/"⟩, ⟨"/zig"⟩, some ⟨"/asciidoctor"⟩, .default⟩
    (linkedPages.world.files.WellFormed ∧ ∃ plan m w w' plan' m',
      cx.manPagesPlan.run linkedPages = .ok plan m ∧
      plan.map Invocation.target? = [some "docs/man/a.html", some "man/man1/a.1"] ∧
      plan.map Invocation.source? = [some "man-src/a.adoc", some "man-src/a.adoc"] ∧
      linkedPages.world.write (cx.path "man/man1/a.1") .empty false = .ok w ∧
      linkedPages.world.readBytes (cx.path "man-src/a.adoc") = .ok ⟨#[61]⟩ ∧
      w.readBytes (cx.path "man-src/a.adoc") = .ok .empty ∧
      linkedPages.world.write (cx.path "docs/man/a.html") .empty false = .ok w' ∧
      cx.manPagesPlan.run ⟨w', none, []⟩ = .ok plan' m' ∧ ¬plan' ⊆ plan) ∧
    (manualPagesIn unreadablePages).world.files.WellFormed ∧ ∃ plan m,
      cx.manPagesPlan.run (manualPagesIn unreadablePages) = .ok plan m ∧
      plan.map Invocation.target? =
        [some "docs/man/\uFFFD.html", some "man/man1/\uFFFD.1", some "docs/man/\uFFFD.html",
          some "man/man1/\uFFFD.1", some "docs/man/😀.html", some "man/man1/😀.1"] := by
  intro cx
  have paths : cx.path cx.docs.manSrc = ⟨"/man-src"⟩ ∧
      cx.path "man-src/a.adoc" = ⟨"/man-src/a.adoc"⟩ ∧
      cx.path "man/man1/a.1" = ⟨"/man/man1/a.1"⟩ ∧
      cx.path "docs/man/a.html" = ⟨"/docs/man/a.html"⟩ := by decide +kernel
  obtain ⟨sources, source, man, web⟩ := paths
  refine ⟨?_, by decide +kernel, _, _, (manPagesPlan_eq_ok rfl).mpr
    ⟨unreadablePages, by rw [sources]; rfl, rfl, rfl⟩, ?_⟩
  · -- what is planned before and after the free place is written to
    obtain ⟨entries, found, names⟩ : ∃ entries,
        linkedPages.world.node ⟨"/man-src"⟩ true = .ok (.directory entries) ∧
          sourceNames entries = ["a.adoc"] :=
      ⟨_, by rfl, by decide +kernel⟩
    obtain ⟨entries', found', entry⟩ : ∃ entries,
        (linkedPagesWith ["man-src", "b.adoc"]).node ⟨"/man-src"⟩ true = .ok (.directory entries) ∧
          (("b.adoc" : RawText), Node.file .empty false) ∈ entries.toList :=
      ⟨_, by rfl, by decide +kernel⟩
    have listed : ("b.adoc" : RawText).text ∈ sourceNames entries' :=
      mem_sourceNames (mem_sourceEntries_iff.mpr ⟨by decide, .empty, false, entry⟩)
    rw [← sources] at found found'
    have planned : cx.manPagesPlan.run linkedPages = .ok _ _ :=
      (manPagesPlan_eq_ok rfl).mpr ⟨entries, found, rfl, rfl⟩
    rw [names] at planned
    rw [source, man, web]
    refine ⟨by decide, _, _, _, _, _, _, planned, by decide +kernel, by decide +kernel,
      write_linkedPages_source, rfl, rfl, write_linkedPages_free,
      (manPagesPlan_eq_ok rfl).mpr ⟨entries', found', rfl, rfl⟩, fun subset => ?_⟩
    have more := subset (List.mem_flatMap.mpr ⟨_, listed, List.mem_cons_self⟩)
    exact absurd more (by decide +kernel)
  · rw [sourceNames_unreadablePages]
    decide +kernel

end Context

end BuildRunner
