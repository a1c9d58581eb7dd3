import BuildRunner.Proofs.Session

/-!
# Where a run ends

A run ends in a session, whether with an answer or with a failure. What holds at its end whatever
comes of it is a statement about this session alone. Most runs end in the world they started in;
such runs can be put behind each other.
-/

namespace BuildRunner.Run

variable {β γ : Type} {x : Run β} {f : β → Run γ} {s s' : Session} {answer : β} {failure : Failure}

/-- The session in which a run ends, with an answer or with a failure. -/
def final (x : Run β) (s : Session) : Session :=
  match x.run s with
  | .ok _ s' => s'
  | .error _ s' => s'

theorem final_of_ok (h : x.run s = .ok answer s') : x.final s = s' := by
  rw [final, h]

theorem final_of_error (h : x.run s = .error failure s') : x.final s = s' := by
  rw [final, h]

/-- Whether a run succeeds. -/
def succeeds (x : Run β) (s : Session) : Bool :=
  match x.run s with
  | .ok _ _ => true
  | .error _ _ => false

theorem run_eq_ok_of_succeeds (h : x.succeeds s = true) :
    ∃ answer, x.run s = .ok answer (x.final s) := by
  rw [succeeds] at h
  cases ran : x.run s with
  | ok answer s' => exact ⟨answer, by rw [final_of_ok ran]⟩
  | error failure s' =>
    rw [ran] at h
    cases h

/-- The failure of a run, if it fails. -/
def failure? (x : Run β) (s : Session) : Option Failure :=
  match x.run s with
  | .ok _ _ => none
  | .error failure _ => some failure

theorem run_eq_error_of_failure? (h : x.failure? s = some failure) :
    x.run s = .error failure (x.final s) := by
  rw [failure?] at h
  cases ran : x.run s with
  | ok answer s' =>
    rw [ran] at h
    cases h
  | error other s' =>
    rw [ran] at h
    cases h
    rw [final_of_error ran]

/-- A run made of two ends where the first fails, or else where the second ends. -/
theorem final_bind (x : Run β) (f : β → Run γ) (s : Session) :
    (x >>= f).final s =
      match x.run s with
      | .ok answer mid => (f answer).final mid
      | .error _ e => e := by
  cases h : x.run s with
  | ok answer mid =>
    rw [final, bind_of_ok h]
    rfl
  | error failure e => rw [final, bind_of_error h]

/-- What two runs do to the world one after the other. If the first fails, the second does
nothing. -/
theorem related_bind {R : World → World → Prop} (trans : ∀ {a b c}, R a b → R b c → R a c)
    (first : R s.world (x.final s).world)
    (next : ∀ answer mid, R mid.world ((f answer).final mid).world) :
    R s.world ((x >>= f).final s).world := by
  rw [final_bind]
  cases h : x.run s with
  | ok answer mid =>
    rw [final_of_ok h] at first
    exact trans first (next answer mid)
  | error failure e => rwa [final_of_error h] at first

/-! ## Steps that are known -/

@[simp] theorem final_log_bind (level : Log.Level) (part : Log.Part) (text : String)
    (f : Unit → Run β) (s : Session) :
    (log level part text >>= f).final s = (f ()).final (s.record (.logged ⟨level, part, text⟩)) :=
  final_bind ..

@[simp] theorem final_world_bind (f : World → Run β) (s : Session) :
    (world >>= f).final s = (f s.world).final s :=
  final_bind ..

theorem final_lift_bind (fail : Fault → Failure) (result : Except Fault β) (f : β → Run γ)
    (s : Session) :
    (lift fail result >>= f).final s =
      match result with
      | .ok answer => (f answer).final s
      | .error _ => s := by
  rw [final_bind]
  cases result <;> rfl

/-- After a write, whether everything fitted or not, some bytes were written and the stream takes so
many more. -/
theorem final_write (text : String) (s : Session) :
    ∃ bytes room, (write text).final s = { s.record (.wrote bytes) with room := room } := by
  cases full : s.room with
  | none =>
    rw [final_of_ok (run_write_unlimited text full)]
    exact ⟨_, s.room, rfl⟩
  | some room =>
    simp only [final, write, writeBytes, EStateM.run_bind, EStateM.run_get, full,
      EStateM.run_modify, run_note]
    by_cases beyond : room < (Text.utf8 text).length
    · rw [if_pos beyond]
      exact ⟨_, _, rfl⟩
    · rw [if_neg beyond]
      exact ⟨_, _, rfl⟩

/-! ## Runs that leave the world alone -/

/-- A run that ends in the world it started in. -/
def KeepsWorld (x : Run β) : Prop :=
  ∀ s, (x.final s).world = s.world

theorem keepsWorld_pure (answer : β) : KeepsWorld (pure answer) :=
  fun _ => rfl

theorem keepsWorld_throw (failure : Failure) : KeepsWorld (throw failure : Run β) :=
  fun _ => rfl

theorem keepsWorld_log (level : Log.Level) (part : Log.Part) (text : String) :
    KeepsWorld (log level part text) :=
  fun _ => rfl

theorem keepsWorld_world : KeepsWorld world :=
  fun _ => rfl

theorem keepsWorld_write (text : String) : KeepsWorld (write text) := by
  intro s
  obtain ⟨bytes, room, ended⟩ := final_write text s
  rw [ended]
  rfl

theorem KeepsWorld.bind (first : KeepsWorld x) (next : ∀ answer, KeepsWorld (f answer)) :
    KeepsWorld (x >>= f) :=
  fun s => related_bind (R := fun w w' => w' = w) (fun h h' => h'.trans h) (first s) next

theorem closed_keepsWorld : Closed KeepsWorld :=
  ⟨keepsWorld_pure, keepsWorld_throw, keepsWorld_log, keepsWorld_world, KeepsWorld.bind⟩

end BuildRunner.Run
