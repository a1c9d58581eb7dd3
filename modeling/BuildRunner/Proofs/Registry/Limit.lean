import BuildRunner.Proofs.Action.Silent
import BuildRunner.Proofs.Registry.Dispatch

/-!
# A dispatch on a limited output stream

Texts reach the output stream from three places: notices about unknown directives, the help
listing, and actions at any depth of nested dispatches. The stream may fail in the middle of any of
them. The law is that the limited dispatch is the unlimited one up to this write, with which it
fails, and the same dispatch if there is no such write.

A run with this property is `Limited`, and it is enough to follow the definitions: a procedure is
made of limited runs if its dispatches are, a list of jobs if its actions are, and an action if its
procedure is, with dispatches one level less deep.
-/

namespace BuildRunner

variable {α β : Type} [Named α]

open Run

theorem Procedure.limited {dispatch : List String → Run Unit} {p : Procedure β} (quiet : p.Quiet)
    (nested : ∀ directives, Limited (dispatch directives)) : Limited (p.run dispatch) := by
  induction p with
  | step own => exact Silent.limited quiet
  | write text => exact limited_write text
  | dispatch directives => exact nested directives
  | bind first next ihFirst ihNext =>
    exact (ihFirst quiet.1).bind fun answer => ihNext answer (quiet.2 answer)

namespace Registry

variable {perform : α → Run Unit}

theorem Job.limited (actions : ∀ action, Limited (perform action)) (job : Job α) :
    Limited (job.run perform) := by
  cases job with
  | prerequisite action => exact (silent_log _ _ _).limited.bind fun _ => actions action
  | own command action => exact (silent_log _ _ _).limited.bind fun _ => actions action
  | unknown directive => exact limited_write _

theorem limited_runJobs (actions : ∀ action, Limited (perform action)) (jobs : List (Job α)) :
    Limited (runJobs perform jobs) := by
  induction jobs with
  | nil => exact (silent_pure ()).limited
  | cons job jobs ih => exact (job.limited actions).bind fun _ => ih

theorem limited_dispatch (actions : ∀ action, Limited (perform action)) (registry : Registry α)
    (directives : List String) : Limited (registry.dispatch perform directives) := by
  rw [dispatch_eq_runJobs]
  exact limited_runJobs actions _

theorem limited_performAt (registry : Registry α) {procedure : α → Procedure Unit}
    (quiet : ∀ action, (procedure action).Quiet) (depth : Nat) (action : α) :
    Limited (registry.performAt procedure depth action) := by
  induction depth generalizing action with
  | zero => exact (silent_throw _).limited
  | succ depth ih => exact Procedure.limited (quiet action) (limited_dispatch ih registry)

/-- The actions of the build and all recipes are performed under any limit. -/
theorem limited_run (registry : Registry Action) (programs : Programs) (cx : Context)
    (directives : List String) : Limited (registry.run programs cx directives) := by
  rw [run_eq_dispatchAt]
  exact limited_dispatch (limited_performAt registry (Action.quiet programs cx registry) _) registry
    directives

/-- **A limit on the output stream cuts a dispatch in the write that does not fit.** Take any
registry of actions that write by their texts and dispatches only, dispatched to any depth, and let
`text` be all that is written to a stream without a limit. On a stream that takes `limit` bytes, if
`text` fits, the dispatch ends the same way and in the same session. If it does not fit, the
dispatch fails because the stream is full, with the first `limit` bytes of `text` written; the
actions started are the first of those started without a limit. -/
theorem dispatch_under_limit (registry : Registry α) (procedure : α → Procedure Unit)
    (quiet : ∀ action, (procedure action).Quiet) (depth : Nat) (directives : List String)
    (s : Session) (unlimited : s.room = none) :
    ∃ (answer : Except Failure Unit) (u : Session) (text : List UInt8),
      (registry.dispatchAt procedure depth directives).run s = ended answer u ∧
      u.output = s.output ++ text ∧
      ∀ limit,
        (text.length ≤ limit →
          (registry.dispatchAt procedure depth directives).run { s with room := some limit } =
            ended answer { u with room := some (limit - text.length) }) ∧
        (limit < text.length → ∃ l,
          (registry.dispatchAt procedure depth directives).run { s with room := some limit } =
            .error (.io .streamFull) l ∧
          l.output = s.output ++ text.take limit ∧ l.starts <+: u.starts) := by
  obtain ⟨w, room, trace⟩ := s
  cases unlimited
  have limited := limited_dispatch (limited_performAt registry quiet depth) registry directives
  obtain ⟨answer, w', events, run, under⟩ := limited w trace
  refine ⟨answer, _, Session.written events, run, Session.written_append trace events,
    fun limit => ⟨(under limit).1, fun beyond => ?_⟩⟩
  obtain ⟨left, failed⟩ := (under limit).2 beyond
  refine ⟨_, failed, ?_, ?_⟩
  · rw [← Session.written_cut]
    exact Session.written_append trace _
  · rw [Session.starts, Session.starts, List.filter_append, List.filter_append]
    exact (List.prefix_append_right_inj _).mpr (Session.filter_isStart_cut limit events)

/-- A notice that a recipe asks for is cut after four of its bytes. -/
theorem dispatch_under_limit_notice :
    let registry : Registry Action :=
      ⟨[⟨"greet", "", some (.recipe ⟨"greet", some "hello\n", ["nobody"], none⟩), []⟩]⟩
    let procedure := Action.procedure (fun _ _ => .error .notFound) default registry
    ∃ l, (registry.dispatchAt procedure 2 ["greet"]).run
        { (default : Session) with room := some 10 } = .error (.io .streamFull) l ∧
      l.output = Text.utf8 "hello\nunkn" := by
  intro registry procedure
  obtain ⟨answer, u, text, run, output, under⟩ := dispatch_under_limit registry procedure
    (Action.quiet _ _ registry) 2 ["greet"] default rfl
  have text_eq : text = Text.utf8 "hello\nunknown build directive: nobody\n" := by
    cases answer with
    | ok _ =>
      cases run
      exact output.symm
    | error failure => cases run
  obtain ⟨l, failed, first, _⟩ := (under 10).2 (by rw [text_eq]; decide)
  exact ⟨l, failed, first.trans (by rw [text_eq]; decide)⟩

end Registry

end BuildRunner
