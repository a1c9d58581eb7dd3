import BuildRunner.Proofs.Action.Sources

/-!
# The site is planned from the candidates of a scan

The pages of the site and the files of a scan are looked for by the same walk, with the same test of
the name and in the same order. So what is planned for the site can be read off the candidates of a
scan: one invocation for each, in their order, with the candidate as it is seen from the root.

Seen from the root, a path loses the components of the root where these are its first ones, and is
left as it is where they are not.
-/

namespace BuildRunner

namespace Context

open Run

/-- **The site is planned from the candidates of a scan.** Let the directory that is set for the
site be looked for from the root. If there is one, perhaps through a link, and Asciidoctor is there,
then the plan succeeds. It has one invocation for each candidate of a scan for `adoc` in this
directory, in the same order. The argument is the candidate without the components of the root,
where it starts with them, and else the candidate as it is. If there is no such directory, the plan
is empty, with Asciidoctor or without. -/
theorem site_is_planned_from_candidates (cx : Context) (s : Session) :
    (s.world.isDirectory (cx.path cx.docs.siteDir) = true →
      ∀ asciidoctor, cx.asciidoctor = some asciidoctor → ∃ sources,
        (Scan.candidates (cx.path cx.docs.siteDir) "adoc").run s = .ok sources s ∧
        cx.sitePlan.run s = .ok (sources.map fun source =>
          ⟨asciidoctor, ["-b", cx.docs.webFormat, (source.behind cx.root).text]⟩) s ∧
        ∀ source ∈ sources,
          (cx.root.components <+: source.components →
            source.components = cx.root.components ++ (source.behind cx.root).components) ∧
          (¬cx.root.components <+: source.components → source.behind cx.root = source)) ∧
    (s.world.isDirectory (cx.path cx.docs.siteDir) = false →
      ∃ m, cx.sitePlan.run s = .ok [] m ∧ s.LogsOnly m) := by
  refine ⟨fun stands asciidoctor tool => ?_, fun missing => ?_⟩
  · obtain ⟨entries, followed⟩ := World.isDirectory_iff_node.mp stands
    refine ⟨_, Scan.candidates_of_directory followed "adoc", sitePlan_of_directory tool stands, ?_⟩
    exact fun source _ => ⟨Path.components_behind, Path.behind_eq_self⟩
  · exact ⟨_, sitePlan_of_no_directory missing, .log _ .refl⟩

/-- A directory with one page of a site. -/
def sitePages : Directory :=
  .ofList [("guide", .directory (.ofList [("a.adoc", .file .empty false)]))]

/-- A session in a tree with a site in a directory that a link in a project leads to. -/
def linkedSite : Session :=
  ⟨⟨.ofList [("p", .directory (.ofList [("docs", .link "../text")])),
    ("text", .directory sitePages)], [], ⟨[]⟩⟩, none, []⟩

/-- A context of the project, with another directory for the site. -/
def siteContext (root siteDir : String) (asciidoctor : Option Path) : Context :=
  ⟨⟨root⟩, ⟨"/zig"⟩, asciidoctor,
    { Settings.default with docs := { Settings.Docs.default with siteDir } }⟩

/-- The page is named from the root if it is found below it, by its own path if the directory of the
site is elsewhere, and not at all if there is no directory. -/
theorem site_is_planned_from_candidates_linked :
    let tool : Path := ⟨"/asciidoctor"⟩
    linkedSite.world.isDirectory ⟨"/p/./docs"⟩ = true ∧
    linkedSite.world.isDirectory ⟨"/text"⟩ = true ∧
    linkedSite.world.isDirectory ⟨"/p/none"⟩ = false ∧
    (siteContext "/p/./" "docs" (some tool)).sitePlan.run linkedSite =
      .ok [⟨tool, ["-b", "html", "docs/guide/a.adoc"]⟩] linkedSite ∧
    (siteContext "/p" "/text" (some tool)).sitePlan.run linkedSite =
      .ok [⟨tool, ["-b", "html", "/text/guide/a.adoc"]⟩] linkedSite ∧
    ∃ m, (siteContext "/p" "none" none).sitePlan.run linkedSite = .ok [] m := by
  intro tool
  have linked : linkedSite.world.isDirectory ⟨"/p/./docs"⟩ = true := by decide +kernel
  have elsewhere : linkedSite.world.isDirectory ⟨"/text"⟩ = true := by decide +kernel
  have missing : linkedSite.world.isDirectory ⟨"/p/none"⟩ = false := by decide +kernel
  have candidates (dir : Path)
      (followed : linkedSite.world.node dir true = .ok (.directory sitePages)) :
      (Scan.candidates dir "adoc").run linkedSite =
        .ok [(dir.join ⟨"guide"⟩).join ⟨"a.adoc"⟩] linkedSite := by
    rw [Scan.candidates_of_directory followed, Scan.found_eq, World.places_of_directory followed]
    simp [sitePages, Directory.ofList, Directory.places, Directory.placesEach, Node.places,
      inNameOrder, Visit.ofPlace, Visit.isFileNamed, Node.kind]
  have planned (root siteDir argument : String) (dir : Path)
      (own : (Path.mk root).join ⟨siteDir⟩ = dir)
      (followed : linkedSite.world.node dir true = .ok (.directory sitePages))
      (seen : ((dir.join ⟨"guide"⟩).join ⟨"a.adoc"⟩).behind ⟨root⟩ = ⟨argument⟩) :
      (siteContext root siteDir (some tool)).sitePlan.run linkedSite =
        .ok [⟨tool, ["-b", "html", argument]⟩] linkedSite := by
    subst own
    obtain ⟨sources, listed, planned, _⟩ :=
      (site_is_planned_from_candidates (siteContext root siteDir (some tool)) linkedSite).1
        (World.isDirectory_iff_node.mpr ⟨sitePages, followed⟩) tool rfl
    cases listed.symm.trans (candidates _ followed)
    rw [planned, List.map_singleton]
    simp only [siteContext, path, docs, seen, Path.text_mk]
    rfl
  refine ⟨linked, elsewhere, missing, ?_, ?_, ?_⟩
  · exact planned _ _ _ ⟨"/p/./docs"⟩ (by decide +kernel) rfl (by decide +kernel)
  · exact planned _ _ _ ⟨"/text"⟩ (by decide +kernel) rfl (by decide +kernel)
  · have own : (siteContext "/p" "none" none).path "none" = ⟨"/p/none"⟩ := by decide +kernel
    obtain ⟨m, planned, _⟩ :=
      (site_is_planned_from_candidates (siteContext "/p" "none" none) linkedSite).2 (own ▸ missing)
    exact ⟨m, planned⟩

end Context

end BuildRunner
