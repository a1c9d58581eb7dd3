import BuildRunner.Action.Procedure
import BuildRunner.Proofs.Action.Closed
import BuildRunner.Proofs.Session.Limit

/-!
# Actions that leave the output stream alone

Of the actions of the build only help writes to the output stream. What programs print goes to
their own standard output, and what is reported about them to the log. So no step of a procedure of
the build depends on how much the stream still takes.
-/

namespace BuildRunner

open Run

/-! ## Steps -/

theorem Invocation.silent_start (programs : Programs) (directory : Path)
    (invocation : Invocation) : Silent (invocation.start programs directory) :=
  silent_world.bind fun _ => (closed_silent.of_lift _ _).bind fun _ =>
    (closed_silent.of_lift _ _).bind fun _ => (closed_silent.of_lift _ _).bind fun _ =>
      (silent_note rfl).bind fun _ => (silent_setWorld _).bind fun _ =>
        (silent_note rfl).bind fun _ => (silent_note rfl).bind fun _ => silent_pure _

theorem silent_removePath (path : Path) : Silent (removePath path) :=
  silent_world.bind fun _ => (closed_silent.of_lift _ _).bind fun _ => silent_setWorld _

theorem silent_makeDirectory (path : Path) : Silent (makeDirectory path) := by
  refine silent_world.bind fun w => (silent_setWorld _).bind fun _ => ?_
  split
  · exact silent_pure _
  · exact silent_throw _

/-! ## Procedures -/

/-- Every step of a procedure leaves the output stream alone, so that it writes by its texts and by
its dispatches only. -/
def Procedure.Quiet : {β : Type} → Procedure β → Prop
  | _, .step own => Silent own
  | _, .write _ => True
  | _, .dispatch _ => True
  | _, .bind first next => first.Quiet ∧ ∀ answer, (next answer).Quiet

theorem Recipe.quiet (recipe : Recipe) : recipe.procedure.Quiet := by
  refine ⟨silent_note rfl, fun _ => ⟨?_, fun _ => ⟨trivial, fun _ => ?_⟩⟩⟩
  · split
    · exact silent_pure _
    · trivial
  · change Silent _
    split
    · exact silent_pure _
    · exact silent_throw _

/-- The actions of the build and all recipes write by their texts and dispatches only. -/
theorem Action.quiet (programs : Programs) (cx : Context) (registry : Registry Action)
    (action : Action) : (action.procedure programs cx registry).Quiet := by
  have start := Invocation.silent_start programs cx.root
  cases action with
  | tests summary => exact Invocation.closed_run closed_silent (start _)
  | clean => exact cx.closed_clean closed_silent silent_removePath
  | docs => exact cx.closed_prepareDocs closed_silent silent_makeDirectory
  | help => exact ⟨trivial, fun _ => silent_throw _⟩
  | build => exact Invocation.closed_run closed_silent (start _)
  | site =>
    exact (cx.closed_sitePlan closed_silent).bind fun _ =>
      Invocation.closed_runAll closed_silent start _
  | manPages =>
    exact (cx.closed_manPagesPlan closed_silent).bind fun _ =>
      Invocation.closed_runAll closed_silent start _
  | recipe content => exact content.quiet

end BuildRunner
