import BuildRunner.Proofs.Action.Closed
import BuildRunner.Proofs.Session.Likeness

/-!
# What actions are made of goes the same way

Starting programs, removing paths and making directories depend on the world alone, whatever was
logged or started before. So from sessions that are alike each of them goes the same way.
-/

namespace BuildRunner

open Run

variable {R : Session → Session → Prop} (like : Session.Likeness R)

include like

theorem Invocation.related_start (programs : Programs) (directory : Path)
    (invocation : Invocation) :
    Related R (invocation.start programs directory) (invocation.start programs directory) := by
  have lifted {β : Type} (fail : Fault → Failure) (result : Except Fault β) :
      Related R (lift fail result) (lift fail result) := (closed_related like).of_lift fail result
  refine (related_world like).bind fun _ => (lifted _ _).bind fun _ => ?_
  refine (lifted _ _).bind fun _ => (lifted _ _).bind fun outcome => ?_
  refine (related_note like _).bind fun _ => (related_setWorld like _).bind fun _ => ?_
  refine (related_note like _).bind fun _ => (related_note like _).bind fun _ => ?_
  exact related_pure outcome.status

theorem related_removePath (path : Path) : Related R (removePath path) (removePath path) :=
  (related_world like).bind fun _ => Related.bind ((closed_related like).of_lift _ _) fun _ =>
    related_setWorld like _

theorem related_makeDirectory (path : Path) :
    Related R (makeDirectory path) (makeDirectory path) := by
  refine (related_world like).bind fun w => (related_setWorld like _).bind fun _ => ?_
  split
  · exact related_pure _
  · exact related_throw _

end BuildRunner
