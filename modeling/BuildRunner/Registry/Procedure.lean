import BuildRunner.Registry.Basic

/-!
# Procedures

What an action does, as far as its registry is concerned: steps of its own, texts for the output
stream, and dispatches on the registry that performs it. A part may depend on the answers of the
parts before it. No part can be told to go on after a failure, so a procedure passes every failure
on.

A registry performs actions of any kind once their procedures are known. Since a dispatch may come
back to the same action, performing counts how deeply dispatches are nested.
-/

namespace BuildRunner

/-- What an action does, with an answer at the end. -/
inductive Procedure : Type → Type 1 where
  /-- Something that is done without a dispatch. -/
  | step {β : Type} (run : Run β) : Procedure β
  | write (text : String) : Procedure Unit
  /-- Dispatches directives on the registry at hand. -/
  | dispatch (directives : List String) : Procedure Unit
  | bind {β γ : Type} (first : Procedure β) (next : β → Procedure γ) : Procedure γ

/-- The run of a procedure, given how directives are dispatched. -/
def Procedure.run (dispatch : List String → Run Unit) {β : Type} : Procedure β → Run β
  | .step own => own
  | .write text => Run.write text
  | .dispatch directives => dispatch directives
  | .bind first next => do
    let answer ← first.run dispatch
    (next answer).run dispatch

namespace Registry

variable {α : Type} [Named α]

/-- Performs an action by its procedure; dispatches are followed `depth` deep. -/
def performAt (registry : Registry α) (procedure : α → Procedure Unit) : Nat → α → Run Unit
  | 0, _ => throw .nestedTooDeep
  | depth + 1, action =>
    (procedure action).run (registry.dispatch (registry.performAt procedure depth))

/-- Dispatches directives, actions performed by their procedures. -/
def dispatchAt (registry : Registry α) (procedure : α → Procedure Unit) (depth : Nat)
    (directives : List String) : Run Unit :=
  registry.dispatch (registry.performAt procedure depth) directives

end Registry

end BuildRunner
