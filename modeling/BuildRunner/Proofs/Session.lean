import BuildRunner.Session

/-!
# What a run does to a session

A run is taken apart at its binds: it succeeds when both parts do, and fails in the first part or,
after that one, in the second. The primitives are given by their whole effect, so that later proofs
rewrite with these equations and never open a run.

The trace only grows here, and every view of it is a fold over the events. What one more event adds
to the output is therefore all there is to know about it.
-/

namespace BuildRunner

variable {α β : Type} {s s' : Session} {failure : Failure}

/-! ## Views of a session in which one more thing happened -/

namespace Session

@[simp] theorem record_world (s : Session) (event : Event) : (s.record event).world = s.world :=
  rfl

@[simp] theorem record_room (s : Session) (event : Event) : (s.record event).room = s.room :=
  rfl

@[simp] theorem output_record_wrote (s : Session) (bytes : List UInt8) :
    (s.record (.wrote bytes)).output = s.output ++ bytes := by
  simp [output, record]

@[simp] theorem output_record_logged (s : Session) (record : Log.Record) :
    (s.record (.logged record)).output = s.output := by
  simp [output, Session.record]

/-- From one session to another only log records were added. -/
inductive LogsOnly : Session → Session → Prop
  | refl {s : Session} : LogsOnly s s
  | log {s s' : Session} (record : Log.Record) :
    LogsOnly s s' → LogsOnly s (s'.record (.logged record))

namespace LogsOnly

theorem world {s s' : Session} (h : LogsOnly s s') : s'.world = s.world := by
  induction h with
  | refl => rfl
  | log record _ ih => exact ih

theorem room {s s' : Session} (h : LogsOnly s s') : s'.room = s.room := by
  induction h with
  | refl => rfl
  | log record _ ih => exact ih

theorem output {s s' : Session} (h : LogsOnly s s') : s'.output = s.output := by
  induction h with
  | refl => rfl
  | log record _ ih => rw [output_record_logged, ih]

end LogsOnly

end Session

namespace Run

/-! ## Binds -/

/-- A run made of two succeeds when the first does and then the second. -/
theorem bind_eq_ok {x : Run α} {f : α → Run β} {answer : β} :
    (x >>= f).run s = .ok answer s' ↔
      ∃ middle mid, x.run s = .ok middle mid ∧ (f middle).run mid = .ok answer s' := by
  rw [EStateM.run_bind]
  cases x.run s with
  | ok middle mid => simp [and_assoc]
  | error first mid => simp

/-- A run made of two fails when the first does, or the second after it. -/
theorem bind_eq_error {x : Run α} {f : α → Run β} :
    (x >>= f).run s = .error failure s' ↔
      x.run s = .error failure s' ∨
        ∃ middle mid, x.run s = .ok middle mid ∧ (f middle).run mid = .error failure s' := by
  rw [EStateM.run_bind]
  cases x.run s with
  | ok middle mid => simp [and_assoc]
  | error first mid => simp

/-- What follows a run that succeeded goes on from where that one ended. -/
theorem bind_of_ok {x : Run α} {f : α → Run β} {middle : α} {mid : Session}
    (h : x.run s = .ok middle mid) : (x >>= f).run s = (f middle).run mid := by
  rw [EStateM.run_bind, h]

/-- Nothing that follows a run that failed is done. -/
theorem bind_of_error {x : Run α} {f : α → Run β} (h : x.run s = .error failure s') :
    (x >>= f).run s = .error failure s' := by
  rw [EStateM.run_bind, h]

/-- Nothing is done after a run that never succeeds. -/
theorem bind_eq_of_ne_ok {x : Run α}
    (fails : ∀ s answer s', x.run s ≠ .ok answer s') (f g : α → Run β) : x >>= f = x >>= g := by
  funext s
  show (x >>= f).run s = (x >>= g).run s
  cases ran : x.run s with
  | ok answer s' => exact absurd ran (fails s answer s')
  | error failure s' => rw [bind_of_error ran, bind_of_error ran]

/-! ## Primitives -/

@[simp] theorem run_note (event : Event) (s : Session) :
    (note event).run s = .ok () (s.record event) :=
  rfl

@[simp] theorem run_log (level : Log.Level) (part : Log.Part) (text : String) (s : Session) :
    (log level part text).run s = .ok () (s.record (.logged ⟨level, part, text⟩)) :=
  rfl

@[simp] theorem run_world (s : Session) : world.run s = .ok s.world s :=
  rfl

@[simp] theorem run_lift_ok (fail : Fault → Failure) (answer : α) (s : Session) :
    (lift fail (.ok answer)).run s = .ok answer s :=
  rfl

@[simp] theorem run_lift_error (fail : Fault → Failure) (fault : Fault) (s : Session) :
    (lift fail (.error fault) : Run α).run s = .error (fail fault) s :=
  rfl

/-- An output stream without a limit takes every text. -/
theorem run_write_unlimited (text : String) (h : s.room = none) :
    (write text).run s = .ok () (s.record (.wrote (Text.utf8 text))) := by
  simp [write, writeBytes, h]

/-- A text that was written without a failure was written whole, whatever the stream still
takes. -/
theorem output_of_write_eq_ok {text : String} (h : (write text).run s = .ok () s') :
    s'.world = s.world ∧ s'.output = s.output ++ Text.utf8 text := by
  cases hroom : s.room with
  | none =>
    rw [run_write_unlimited text hroom] at h
    cases h
    exact ⟨rfl, Session.output_record_wrote s _⟩
  | some room =>
    simp only [write, writeBytes, EStateM.run_bind, EStateM.run_get, hroom, EStateM.run_modify,
      run_note] at h
    split at h
    · cases h
    · next fits =>
      cases h
      refine ⟨rfl, ?_⟩
      rw [List.take_of_length_le (Nat.le_of_not_lt fits), Session.output_record_wrote]
      rfl

/-! ## Classes of runs -/

/-- A class of runs that has the runs which only look, log or fail, and is closed under binds. -/
structure Closed (P : {β : Type} → Run β → Prop) : Prop where
  of_pure {β : Type} (answer : β) : P (pure answer)
  of_throw {β : Type} (failure : Failure) : P (throw failure : Run β)
  of_log (level : Log.Level) (part : Log.Part) (text : String) : P (log level part text)
  of_world : P world
  of_bind {β γ : Type} {x : Run β} {f : β → Run γ} :
    P x → (∀ answer, P (f answer)) → P (x >>= f)

theorem Closed.of_lift {P : {β : Type} → Run β → Prop} (closed : Closed P)
    (fail : Fault → Failure) (result : Except Fault α) : P (lift fail result) := by
  cases result with
  | ok answer => exact closed.of_pure answer
  | error fault => exact closed.of_throw (fail fault)

end Run

end BuildRunner
