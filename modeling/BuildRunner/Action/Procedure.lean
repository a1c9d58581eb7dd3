import BuildRunner.Action.Basic
import BuildRunner.Registry.Procedure

/-!
# The procedures of the actions

Actions have procedures: help writes its listing and ends the run, a recipe writes and dispatches,
and the other actions of the build are steps of their own. To perform actions is to follow these.
-/

namespace BuildRunner

/-- The procedure of a recipe. -/
def Recipe.procedure (recipe : Recipe) : Procedure Unit :=
  .bind (.step (Run.note (.began recipe.name))) fun _ =>
  .bind (match recipe.text with
    | none => .step (pure ())
    | some text => .write text) fun _ =>
  .bind (.dispatch recipe.directives) fun _ =>
  .step (match recipe.failure with
    | none => pure ()
    | some failure => throw failure)

/-- The procedure of an action. -/
def Action.procedure (programs : Programs) (cx : Context) (registry : Registry Action) :
    Action → Procedure Unit
  | tests summary => .step ((cx.testsInvocation summary).run programs cx.root)
  | clean => .step cx.clean
  | docs => .step cx.prepareDocs
  | help => .bind (.write registry.help) fun _ => .step (throw .exit)
  | build => .step (cx.buildInvocation.run programs cx.root)
  | site => .step do Invocation.runAll programs cx.root (← cx.sitePlan)
  | manPages => .step do Invocation.runAll programs cx.root (← cx.manPagesPlan)
  | recipe content => content.procedure

/-- A recipe does what its procedure says. -/
theorem Recipe.perform_eq (dispatch : List String → Run Unit) (recipe : Recipe) :
    recipe.perform dispatch = recipe.procedure.run dispatch := by
  cases recipe with
  | mk name text directives failure => cases text <;> rfl

/-- An action is performed by its procedure, at every depth. -/
theorem Action.perform_eq_performAt (programs : Programs) (cx : Context)
    (registry : Registry Action) (depth : Nat) :
    Action.perform programs cx registry depth =
      registry.performAt (Action.procedure programs cx registry) depth := by
  induction depth with
  | zero => rfl
  | succ depth ih =>
    funext action
    cases action with
    | recipe content =>
      rw [Registry.performAt, ← ih]
      exact content.perform_eq _
    | _ => rfl

theorem nestingLimit_ne_zero : nestingLimit ≠ 0 := by
  decide

/-- An action that is a step of its own is performed by this step. -/
theorem Action.perform_eq_of_step {programs : Programs} {cx : Context} {registry : Registry Action}
    {depth : Nat} {action : Action} {own : Run Unit} (deep : depth ≠ 0)
    (h : action.procedure programs cx registry = .step own) :
    Action.perform programs cx registry depth action = own := by
  obtain ⟨depth, rfl⟩ := Nat.exists_eq_succ_of_ne_zero deep
  rw [Action.perform_eq_performAt, Registry.performAt, h]
  rfl

/-- To run directives is to dispatch them with the procedures of the actions. -/
theorem Registry.run_eq_dispatchAt (registry : Registry Action) (programs : Programs)
    (cx : Context) (directives : List String) :
    registry.run programs cx directives =
      registry.dispatchAt (Action.procedure programs cx registry) nestingLimit directives := by
  rw [run, dispatchAt, Action.perform_eq_performAt]

end BuildRunner
