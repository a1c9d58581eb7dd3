import BuildRunner.Action.Basic
import BuildRunner.Proofs.Session

/-!
# Actions in a class of runs

Planning looks at the world and logs, so it belongs to every closed class of runs. All else that the
actions of the build do is starting programs, removing paths and making directories. So an action
belongs to a closed class if those of the three that it is made of do.
-/

namespace BuildRunner

variable {P : {β : Type} → Run β → Prop} (closed : Run.Closed P)

include closed

namespace Context

variable (cx : Context)

theorem closed_needAsciidoctor : P cx.needAsciidoctor := by
  unfold needAsciidoctor
  split
  · exact closed.of_pure _
  · exact closed.of_throw _

theorem closed_base : P cx.base :=
  closed.of_bind closed.of_world fun _ =>
    closed.of_bind (closed.of_lift _ _) fun _ => closed.of_pure _

theorem closed_manPagesPlan : P cx.manPagesPlan :=
  closed.of_bind (cx.closed_needAsciidoctor closed) fun _ =>
    closed.of_bind closed.of_world fun _ =>
      closed.of_bind (closed.of_lift _ _) fun _ => closed.of_pure _

theorem closed_sitePlan : P cx.sitePlan := by
  refine closed.of_bind closed.of_world fun w => ?_
  by_cases present : w.isDirectory (cx.path cx.docs.siteDir) = true
  · rw [if_pos present]
    exact closed.of_bind (cx.closed_needAsciidoctor closed) fun _ =>
      closed.of_bind (closed.of_lift _ _) fun _ => closed.of_pure _
  · rw [if_neg present]
    exact closed.of_bind (closed.of_log _ _ _) fun _ => closed.of_pure _

theorem closed_clean (remove : ∀ path, P (Run.removePath path)) : P cx.clean := by
  refine closed.of_bind (cx.closed_base closed) fun base => ?_
  induction artifacts with
  | nil => exact closed.of_pure _
  | cons name names ih =>
    exact closed.of_bind (closed.of_log _ _ _) fun _ => closed.of_bind (remove _) fun _ => ih

theorem closed_prepareDocs (make : ∀ path, P (Run.makeDirectory path)) : P cx.prepareDocs := by
  refine closed.of_bind (cx.closed_needAsciidoctor closed) fun _ =>
    closed.of_bind (cx.closed_base closed) fun base => ?_
  induction [cx.docs.manOut, cx.docs.webManOut] with
  | nil => exact closed.of_pure _
  | cons name names ih =>
    exact closed.of_bind (make _) fun _ => closed.of_bind (closed.of_log _ _ _) fun _ => ih

end Context

namespace Invocation

variable {programs : Programs} {directory : Path}

theorem closed_run {invocation : Invocation} (start : P (invocation.start programs directory)) :
    P (invocation.run programs directory) := by
  refine closed.of_bind (closed.of_log _ _ _) fun _ => closed.of_bind start fun status => ?_
  by_cases success : status.isSuccess = true
  · rw [if_pos success]
    exact closed.of_pure _
  · rw [if_neg success]
    exact closed.of_log _ _ _

theorem closed_runAll (start : ∀ invocation : Invocation, P (invocation.start programs directory))
    (invocations : List Invocation) : P (runAll programs directory invocations) := by
  induction invocations with
  | nil => exact closed.of_pure _
  | cons invocation invocations ih =>
    exact closed.of_bind (closed_run closed (start invocation)) fun _ => ih

end Invocation

/-- An action of the build is in a closed class if starting, removing, making and writing are. -/
theorem Action.closed_perform {programs : Programs} {cx : Context} {registry : Registry Action}
    {depth : Nat} (deep : depth ≠ 0) {action : Action}
    (builtin : ∀ content, action ≠ .recipe content)
    (start : ∀ invocation : Invocation, P (invocation.start programs cx.root))
    (remove : ∀ path, P (Run.removePath path)) (make : ∀ path, P (Run.makeDirectory path))
    (write : ∀ text, P (Run.write text)) : P (action.perform programs cx registry depth) := by
  obtain ⟨depth, rfl⟩ := Nat.exists_eq_succ_of_ne_zero deep
  cases action with
  | tests summary => exact Invocation.closed_run closed (start _)
  | clean => exact cx.closed_clean closed remove
  | docs => exact cx.closed_prepareDocs closed make
  | help => exact closed.of_bind (write _) fun _ => closed.of_throw _
  | build => exact Invocation.closed_run closed (start _)
  | site =>
    exact closed.of_bind (cx.closed_sitePlan closed) fun plan =>
      Invocation.closed_runAll closed start plan
  | manPages =>
    exact closed.of_bind (cx.closed_manPagesPlan closed) fun plan =>
      Invocation.closed_runAll closed start plan
  | recipe content => exact absurd rfl (builtin content)

end BuildRunner
