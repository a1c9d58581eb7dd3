import BuildRunner.Proofs.CommandLine.Startup
import BuildRunner.Proofs.Registry.Statuses
import BuildRunner.Proofs.Session.Alike

/-!
# How `x` ends

The status of `x` says whether it could start up and whether its directives failed. It does not say
how the programs ended that were started: such an end is logged, and what is logged decides nothing.
So `x` does the same, and ends with the same status, whatever the statuses of its programs are
(`alike_act`).

Starting up comes before everything else. Where it fails, no directive has been looked at, nothing
was written or started, and the world is as it was.
-/

namespace BuildRunner

open Run

variable {programs programs' : Programs} {cx : Context} {root : Path} {s t m : Session} {w : World}

namespace Program

/-! ## Programs that end otherwise -/

theorem report_of_alike (alike : s.Alike t) (status : Nat) :
    (s.report status).status = (t.report status).status ∧
      (s.report status).output = (t.report status).output ∧
      (s.report status).world = (t.report status).world :=
  ⟨rfl, congrArg (fun bytes => (Text.ofUtf8? bytes).getD "") (alike.flatMap_eq fun _ => rfl),
    alike.world⟩

/-- There are no settings, or Zig is not found. -/
def CannotStart (w : World) (root : Path) : Prop :=
  (∃ refusal, Settings.load w root = .error refusal) ∨
    ∃ settings, Settings.load w root = .ok settings ∧
      Context.locate w .zig settings.tools.zig = none

theorem startUp_of_cannotStart (refused : CannotStart w root) :
    ∃ failure level, failure.level? = some level ∧
      (startUp root).run (.start w) = .error failure (.start w) := by
  obtain ⟨refusal, refused⟩ | ⟨settings, loaded, missing⟩ := refused
  · exact ⟨_, _, rfl, startUp_of_refused refused⟩
  · exact ⟨_, _, rfl, startUp_of_missing loaded missing⟩

theorem startUp_of_not_cannotStart (can : ¬CannotStart w root) :
    ∃ cx m, (startUp root).run (.start w) = .ok cx m ∧ (Session.start w).LogsOnly m := by
  rw [CannotStart, not_or] at can
  cases loaded : Settings.load w root with
  | error refusal => exact absurd ⟨refusal, loaded⟩ can.1
  | ok settings =>
    cases located : Context.locate w .zig settings.tools.zig with
    | none => exact absurd ⟨settings, loaded, located⟩ can.2
    | some zig => exact startUp_of_located loaded located

/-- A world with nothing in it. -/
def bareWorld : World :=
  ⟨.empty, [], ⟨[]⟩⟩

end Program

end BuildRunner
