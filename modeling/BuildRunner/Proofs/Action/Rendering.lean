import BuildRunner.Proofs.Action.Tools

/-!
# Pages are rendered by the plan made first

An action that renders pages plans all invocations before it starts the first of them. What the
programs do to the files then, even to the sources, does not change the plan any more: it is gone
through in its order, each program started in the root and in the world that the one before it
left. How a program ends does not matter. Only a program that cannot be started ends the action,
with the fault of starting it.
-/

namespace BuildRunner.Action

open Run

/-- **Pages are rendered by the plan made first.** Let programs end as they like and change any
files while they run, and let manual pages or the site be rendered. If planning fails, the action
fails so, and nothing is started. Otherwise the plan comes from the world before the first start.
The programs that are started are those of a first part of the plan, in its order, with the
arguments of their invocations, each in the root and in the world that the one before it left. This
part is the whole plan, and the action succeeds, unless there is an invocation that cannot be
started where it comes; then it is the part before this one, and the action fails with the fault. -/
theorem rendering_follows_first_plan (programs : Programs) (cx : Context)
    (registry : Registry Action) {depth : Nat} (deep : depth ≠ 0) (action : Action)
    (renders : action = .manPages ∨ action = .site) (s : Session) :
    (∀ failure m, (action.plan cx).run s = .error failure m →
      (action.perform programs cx registry depth).run s = .error failure m ∧
        m.world = s.world ∧ m.launches = s.launches) ∧
    ∀ plan m, (action.plan cx).run s = .ok plan m →
      m.world = s.world ∧ m.launches = s.launches ∧
      ∃ done rest launches e, plan = done ++ rest ∧
        Invocation.Started programs cx.root s.world done launches e.world ∧
        e.launches = s.launches ++ launches ∧
        launches.map (fun launch => (launch.arguments, launch.directory)) =
          done.map (fun invocation => (invocation.arguments, cx.root)) ∧
        (rest = [] ∧ (action.perform programs cx registry depth).run s = .ok () e ∨
          ∃ refused behind fault, rest = refused :: behind ∧
            refused.attempt programs cx.root e.world = .error fault ∧
            (action.perform programs cx registry depth).run s = .error (.io fault) e) := by
  have own : action.tool? = some .asciidoctor := by
    rcases renders with rfl | rfl <;> rfl
  have still : KeepsWorld (action.plan cx) := closed_plan closed_keepsWorld cx action
  have unlaunched : Ensures (fun s s' => s'.launches = s.launches) (action.plan cx) :=
    closed_plan launches_guarantee.closed cx action
  rw [perform_eq_plan deep own]
  refine ⟨fun failure m failed => ?_, fun plan m planned => ?_⟩
  · have world := still s
    have launches := unlaunched s
    rw [final_of_error failed] at world launches
    exact ⟨bind_of_error failed, world, launches⟩
  · have world := still s
    rw [final_of_ok planned] at world
    have none := unlaunched.of_ok planned
    obtain ⟨done, rest, launches, e, whole, started, all, ended⟩ :=
      Invocation.run_runAll programs cx.root plan m
    rw [world] at started
    rw [none] at all
    rw [bind_of_ok planned]
    exact ⟨world, none, done, rest, launches, e, whole, started, all, started.launches_eq, ended⟩

/-- A session with one manual page and with Asciidoctor, both at the top. -/
def onePage : Session :=
  let page : Directory := .ofList [("a.adoc", .file .empty false)]
  ⟨⟨.ofList [("man-src", .directory page), ("asciidoctor", .file .empty true)], [], ⟨[]⟩⟩, none, []⟩

/-- Programs that fail, and take away an entry at the top. -/
def takingAway (name : String) : Programs :=
  fun _ w => .ok ⟨.code 1, w.files.erase name, "", ""⟩

/-- When the first program takes the sources away, the second is still started. When it takes
Asciidoctor away, the second cannot be started, and the action fails. -/
theorem rendering_follows_first_plan_taken_away :
    let cx : Context := ⟨⟨"/"⟩, ⟨"/zig"⟩, some ⟨"/asciidoctor"⟩, .default⟩
    let html : Invocation :=
      ⟨⟨"/asciidoctor"⟩, ["-b", "html", "man-src/a.adoc", "-o", "docs/man/a.html"]⟩
    let man : Invocation :=
      ⟨⟨"/asciidoctor"⟩, ["-b", "manpage", "man-src/a.adoc", "-o", "man/man1/a.1"]⟩
    let render (programs : Programs) : Run Unit :=
      Action.perform programs cx ⟨buildCommands⟩ nestingLimit .manPages
    nestingLimit ≠ 0 ∧ (manPages.plan cx).run onePage = .ok [html, man] onePage ∧
    (∃ launches e, (render (takingAway "man-src")).run onePage = .ok () e ∧
      e.launches = launches ∧ launches.length = 2 ∧
      Invocation.Started (takingAway "man-src") ⟨"/"⟩ onePage.world [html, man] launches e.world) ∧
    ∃ launch e, (render (takingAway "asciidoctor")).run onePage = .error (.io .notFound) e ∧
      e.launches = [launch] ∧
      Invocation.Started (takingAway "asciidoctor") ⟨"/"⟩ onePage.world [html] [launch]
        e.world := by
  intro cx html man render
  have planned : (manPages.plan cx).run onePage = .ok [html, man] onePage := by
    refine (Context.manPagesPlan_eq_ok rfl).mpr
      ⟨.ofList [("a.adoc", .file .empty false)], ?_, ?_, rfl⟩
    · have path : cx.path cx.docs.manSrc = ⟨"/man-src"⟩ := by decide +kernel
      rw [path]
      rfl
    · have sources :
          Context.sourceNames (.ofList [("a.adoc", .file .empty false)]) = ["a.adoc"] := by
        simp [Context.sourceNames, Directory.ofList, Directory.toList, Node.kind, Context.isSource,
          Context.sourceSuffix]
      rw [sources]
      decide +kernel
  have follows (programs : Programs) := (rendering_follows_first_plan programs cx ⟨buildCommands⟩
    nestingLimit_ne_zero .manPages (.inl rfl) onePage).2 _ _ planned
  have run_eq (programs : Programs) : (render programs).run onePage =
      (Invocation.runAll programs ⟨"/"⟩ [html, man]).run onePage := by
    rw [show render programs = _ from perform_eq_plan nestingLimit_ne_zero rfl, bind_of_ok planned]
  refine ⟨nestingLimit_ne_zero, planned, ?_, ?_⟩
  · have ends : (Invocation.runAll (takingAway "man-src") ⟨"/"⟩ [html, man]).succeeds onePage =
        true := by decide +kernel
    obtain ⟨_, ran⟩ := run_eq_ok_of_succeeds ends
    obtain ⟨_, _, done, rest, launches, e, whole, started, all, shown, ended⟩ :=
      follows (takingAway "man-src")
    rcases ended with ⟨rfl, ended⟩ | ⟨_, _, _, _, _, failed⟩
    · rw [List.append_nil] at whole
      subst whole
      refine ⟨launches, e, ended, all, ?_, started⟩
      rw [← List.length_map, shown]
      rfl
    · cases (failed.symm.trans (run_eq _)).trans ran
  · have fails : (Invocation.runAll (takingAway "asciidoctor") ⟨"/"⟩ [html, man]).failure? onePage =
        some (.io .notFound) := by decide +kernel
    have one : ((Invocation.runAll (takingAway "asciidoctor") ⟨"/"⟩ [html, man]).final
        onePage).launches.length = 1 := by decide +kernel
    have ran := (run_eq _).trans (run_eq_error_of_failure? fails)
    obtain ⟨_, _, done, rest, launches, e, whole, started, all, shown, ended⟩ :=
      follows (takingAway "asciidoctor")
    rcases ended with ⟨_, ended⟩ | ⟨refused, behind, fault, rfl, _, ended⟩
    · cases ran.symm.trans ended
    · cases ran.symm.trans ended
      obtain ⟨launch, rfl⟩ := List.length_eq_one_iff.mp ((congrArg List.length all).symm.trans one)
      have single := congrArg List.length shown
      rw [List.length_map, List.length_map] at single
      obtain ⟨first, rfl⟩ := List.length_eq_one_iff.mp single.symm
      cases whole
      exact ⟨launch, _, ran, all, started⟩

end BuildRunner.Action
