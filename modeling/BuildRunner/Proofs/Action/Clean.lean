import BuildRunner.Proofs.Action.Frame
import BuildRunner.Proofs.World.Paths

/-!
# What cleaning leaves behind

Cleaning looks for what it is to remove by following links, and takes it for absent where nothing is
found. So directories and files are gone afterwards, and so is a link that leads to something, the
link itself and not what it leads to. But a link that leads to nothing stays. It may have led to
something before: what is removed first can be what the next entry is a link to.

What is cleared stays cleared when more is removed, because whatever leads to nothing in a world
leads to nothing in every smaller one.
-/

namespace BuildRunner

/-! ## What is missing in a smaller tree -/

namespace Directory

/-- A file or a link of a tree stands in a part of the tree as well, or nothing does there. -/
theorem PartOf.get?_of_leaf {d d' : Directory} (h : d.PartOf d') {location : Location}
    {node : Node} (found : d'.get? location = some node) (kind : node.kind ≠ .directory) :
    d.get? location = none ∨ d.get? location = some node := by
  cases own : d.get? location with
  | none => exact .inl rfl
  | some other =>
    by_cases leaf : other.kind = .directory
    · cases other with
      | directory sub =>
        obtain ⟨sub', found'⟩ := h.get?_directory own
        cases found.symm.trans found'
        exact absurd rfl kind
      | file content executable => cases leaf
      | link target => cases leaf
    · exact .inr (found ▸ (h.get?_leaf own leaf).symm)

end Directory

namespace World

variable {w w' : World} {p : Path} {name : RawText} {here : Location} {follow : Bool}
  {fault : Fault}

theorem node_eq_error : w.node p follow = .error fault ↔ w.locate p follow = .error fault := by
  rw [node]
  cases located : w.locate p follow with
  | error other => simp [bind, Except.bind]
  | ok location =>
    obtain ⟨node, found⟩ := exists_of_locate located
    simp [bind, Except.bind, found, pure, Except.pure]

/-- What leads to nothing in a world leads to nothing in every smaller one. -/
theorem PartOf.node_eq_notFound (h : w.PartOf w') (missing : w'.node p follow = .error .notFound) :
    w.node p follow = .error .notFound := by
  rw [node_eq_error] at missing ⊢
  rcases h.locate_cases p follow with same | gone
  · rw [same, missing]
  · exact gone

/-- Only an empty path is refused as one that leads to nothing. -/
theorem badPath_ne_notFound (nonempty : p.raw ≠ "") : badPath p ≠ some .notFound := by
  rw [badPath, if_neg nonempty]
  split
  · simp
  · split <;> simp

/-! ## Entries that are cleared -/

/-- A directory at `here`, which a path leads to, has no entry of a name, or the entry is a link
that leads to nothing. -/
def Cleared (w : World) (p : Path) (here : Location) (name : RawText) : Prop :=
  w.files.get? (here ++ [name]) = none ∨
    ∃ target, w.files.get? (here ++ [name]) = some (.link target) ∧
      w.node (p.join ⟨name⟩) true = .error .notFound

theorem Cleared.of_partOf (cleared : w.Cleared p here name) (h : w'.PartOf w) :
    w'.Cleared p here name := by
  rcases cleared with none | ⟨target, found, missing⟩
  · refine .inl (Directory.face?_eq_none_iff.mp (Option.eq_none_iff_forall_ne_some.mpr ?_))
    intro face own
    have seen := h.files _ _ own
    rw [Directory.face?_eq_none_iff.mpr none] at seen
    cases seen
  · rcases h.files.get?_of_leaf found (by simp [Node.kind]) with none | own
    · exact .inl none
    · exact .inr ⟨target, own, h.node_eq_notFound missing⟩

/-- An entry that leads to nothing is missing, or it is a link. -/
theorem cleared_of_notFound (named : IsName name) (located : w.locate p true = .ok here)
    (missing : w.node (p.join ⟨name⟩) true = .error .notFound) : w.Cleared p here name := by
  have located' := node_eq_error.mp missing
  have plain : badPath (p.join ⟨name⟩) = none := by
    rw [locate] at located'
    split at located'
    · next refused =>
      cases located'
      exact absurd refused
        (badPath_ne_notFound (Path.raw_join_ne_empty (raw_ne_empty_of_locate located) _))
    · assumption
  cases found : w.files.get? (here ++ [name]) with
  | none => exact .inl found
  | some node =>
    by_cases link : node.kind = .link
    · cases node with
      | link target => exact .inr ⟨target, found, missing⟩
      | file content executable => cases link
      | directory entries => cases link
    · -- a file or a directory would be found by its name
      have single : ∀ other ∈ [name], IsName other := List.forall_mem_singleton.mpr named
      have led := locateSteps_descend single (List.cons_ne_nil _ _) located found link true
      cases located'.symm.trans (locate_eq_ok.mpr ⟨plain, led⟩)

/-- After an entry was removed without a fault it is cleared. -/
theorem cleared_of_remove (named : IsName name) (removed : w.remove (p.join ⟨name⟩) = .ok w')
    (located : w'.locate p true = .ok here) : w'.Cleared p here name := by
  have before := (remove_shrinks removed).part.locate_eq_ok located
  rw [remove] at removed
  split at removed
  · next missing =>
    cases removed
    exact cleared_of_notFound named located missing
  · cases removed
  · obtain ⟨spot, own, removed⟩ := bind_eq_ok.mp removed
    cases removed
    obtain rfl := locate_join named before own
    refine .inl (Directory.face?_eq_none_iff.mp ?_)
    rw [withFiles, Directory.face?_alter_none w.files (List.concat_ne_nil _ _),
      if_pos List.prefix_rfl]

end World

/-! ## Cleaning -/

namespace Context

open Run

variable {s s' : Session} {base : Path} {names : List String} {here : Location}

theorem remove_of_removePath (removed : (removePath base).run s = .ok () s') :
    s.world.remove base = .ok s'.world := by
  rw [removePath, bind_of_ok (run_world s)] at removed
  cases own : s.world.remove base with
  | error fault =>
    rw [own] at removed
    cases removed
  | ok w =>
    rw [own] at removed
    cases removed
    rfl

/-- Names that were removed below a path are cleared. -/
theorem cleared_of_removeAll (named : ∀ name ∈ names, IsName (name : RawText))
    (removed : (removeAll base names).run s = .ok () s')
    (located : s'.world.locate base true = .ok here) :
    ∀ name ∈ names, s'.world.Cleared base here name := by
  induction names generalizing s with
  | nil => exact fun _ mem => absurd mem List.not_mem_nil
  | cons name names ih =>
    obtain ⟨own, others⟩ := List.forall_mem_cons.mp named
    obtain ⟨_, logged, _, rest⟩ := bind_eq_ok.mp removed
    obtain ⟨_, mid, first, rest⟩ := bind_eq_ok.mp rest
    have later := (shrinks_removeAll base names mid).part
    rw [final_of_ok rest] at later
    have cleared :=
      World.cleared_of_remove own (remove_of_removePath first) (later.locate_eq_ok located)
    exact List.forall_mem_cons.mpr ⟨cleared.of_partOf later, ih others rest⟩

end Context

namespace Action

open Run Context

/-- **Cleaning leaves nothing but links that lead to nothing.** Let cleaning succeed, and let the
root lead somewhere afterwards. Then no entry there bears the name of an artifact, unless it was a
link before, is the same link still, and leads to nothing now. -/
theorem cleaning_leaves_only_dead_links (programs : Programs) (cx : Context)
    (registry : Registry Action) {depth : Nat} (deep : depth ≠ 0) (s s' : Session)
    (cleaned : (clean.perform programs cx registry depth).run s = .ok () s') (here : Location)
    (located : s'.world.locate (cx.rootPath s'.world) true = .ok here) :
    ∀ name ∈ artifacts, s'.world.files.get? (here ++ [(name : RawText)]) = none ∨
      ∃ target, s.world.files.get? (here ++ [(name : RawText)]) = some (.link target) ∧
        s'.world.files.get? (here ++ [(name : RawText)]) = some (.link target) ∧
        s'.world.node ((cx.rootPath s'.world).join ⟨name⟩) true = .error .notFound := by
  obtain ⟨depth, rfl⟩ := Nat.exists_eq_succ_of_ne_zero deep
  rw [show clean.perform programs cx registry (depth + 1) = cx.clean from rfl] at cleaned
  have part := (cx.shrinks_clean s).part
  rw [final_of_ok cleaned] at part
  obtain ⟨base, mid, based, removed⟩ := bind_eq_ok.mp cleaned
  rw [run_base] at based
  split at based
  · cases based
    rw [cx.rootPath_congr part.workingDirectory] at removed
    intro name mem
    have cleared := cleared_of_removeAll isName_of_mem_artifacts removed located name mem
    refine cleared.imp_right ?_
    rintro ⟨target, found, missing⟩
    exact ⟨target, part.files.get?_leaf found (by simp [Node.kind]), found, missing⟩
  · cases based

/-- A session in a tree with a project that has the given entries. -/
def projectOf (entries : List (RawText × Node)) : Session :=
  ⟨⟨.ofList [("p", .directory (.ofList entries))], [], ⟨[]⟩⟩, none, []⟩

/-- A directory is removed with all that is in it. A link into it stays, since it leads to nothing
by then. -/
theorem cleaning_leaves_only_dead_links_inner :
    let inner : Directory := .ofList [("o", .file .empty false)]
    let s := projectOf [("zig-out", .directory inner), (".zig-cache", .link "zig-out/o")]
    let cx : Context := ⟨⟨"/p"⟩, ⟨"/zig"⟩, none, .default⟩
    let cleaning := clean.perform (fun _ _ => .error .notFound) cx .empty 1
    ∃ s', cleaning.run s = .ok () s' ∧
      s'.world.locate (cx.rootPath s'.world) true = .ok ["p"] ∧
      s'.world.files.get? ["p", "zig-out"] = none ∧
      s.world.isFile ⟨"/p/.zig-cache"⟩ = true ∧
      s'.world.files.get? ["p", ".zig-cache"] = some (.link "zig-out/o") ∧
      s'.world.node ((cx.rootPath s'.world).join ⟨".zig-cache"⟩) true = .error .notFound := by
  intro inner s cx cleaning
  have succeeds : cleaning.succeeds s = true := by decide +kernel
  obtain ⟨_, ran⟩ := run_eq_ok_of_succeeds succeeds
  have located : (cleaning.final s).world.locate (cx.rootPath (cleaning.final s).world) true =
      .ok ["p"] := World.eq_ok_of_toOption (by decide +kernel)
  have kept : (cleaning.final s).world.files.get? ["p", ".zig-cache"] =
      some (.link "zig-out/o") := by decide +kernel
  have left := cleaning_leaves_only_dead_links _ cx .empty Nat.one_ne_zero s _ ran ["p"] located
  refine ⟨_, ran, located, ?_, by decide +kernel, kept, ?_⟩
  · rcases left "zig-out" (by decide) with none | ⟨target, before, _⟩
    · exact none
    · cases before
  · rcases left ".zig-cache" (by decide) with none | ⟨target, _, _, missing⟩
    · cases kept.symm.trans none
    · exact missing

/-- Cleaning succeeds where the name of an artifact stands for a link that leads to nothing, and the
link is still there. -/
theorem cleaning_leaves_dead_link :
    let s := projectOf [("zig-out", .link "nowhere")]
    let cx : Context := ⟨⟨"/p"⟩, ⟨"/zig"⟩, none, .default⟩
    let cleaning := clean.perform (fun _ _ => .error .notFound) cx .empty 1
    ∃ s', cleaning.run s = .ok () s' ∧
      s'.world.locate (cx.rootPath s'.world) true = .ok ["p"] ∧ "zig-out" ∈ artifacts ∧
      s'.world.files.get? ["p", "zig-out"] = some (.link "nowhere") := by
  intro s cx cleaning
  have succeeds : cleaning.succeeds s = true := by decide +kernel
  obtain ⟨_, ran⟩ := run_eq_ok_of_succeeds succeeds
  have located : (cleaning.final s).world.locate (cx.rootPath (cleaning.final s).world) true =
      .ok ["p"] := World.eq_ok_of_toOption (by decide +kernel)
  exact ⟨_, ran, located, List.mem_cons_self, by decide +kernel⟩

end Action

end BuildRunner
