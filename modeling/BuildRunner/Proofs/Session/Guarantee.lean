import BuildRunner.Proofs.Session.Final

/-!
# What holds from the start of a run to its end

A guarantee relates the session a run starts in to the one it ends in, whatever comes of the run.
Guarantees that can be chained and do not mind log records are kept by every run whose parts keep
them. So to prove one of a run it is enough to look at the parts that change more than the log.
-/

namespace BuildRunner.Run

variable {β γ : Type} {R : Session → Session → Prop} {x : Run β} {f : β → Run γ}

/-- A relation from one session to a later one that can be chained and that log records keep. -/
structure Guarantee (R : Session → Session → Prop) : Prop where
  refl (s : Session) : R s s
  trans {a b c : Session} : R a b → R b c → R a c
  log (s : Session) (record : Log.Record) : R s (s.record (.logged record))

/-- From wherever a run starts, the relation holds to where it ends. -/
def Ensures (R : Session → Session → Prop) (x : Run β) : Prop :=
  ∀ s, R s (x.final s)

theorem Ensures.of_ok {s s' : Session} {answer : β} (ensures : Ensures R x)
    (h : x.run s = .ok answer s') : R s s' :=
  final_of_ok h ▸ ensures s

namespace Guarantee

theorem bind (guarantee : Guarantee R) (first : Ensures R x)
    (next : ∀ answer, Ensures R (f answer)) : Ensures R (x >>= f) := by
  intro s
  rw [final_bind]
  have start := first s
  cases ran : x.run s with
  | ok answer mid =>
    rw [final_of_ok ran] at start
    exact guarantee.trans start (next answer mid)
  | error failure e => rwa [final_of_error ran] at start

theorem closed (guarantee : Guarantee R) : Closed (Ensures R) :=
  ⟨fun _ s => guarantee.refl s, fun _ s => guarantee.refl s, fun _ _ _ s => guarantee.log s _,
    guarantee.refl, guarantee.bind⟩

/-- What holds of the world throughout is guaranteed. -/
theorem of_world (P : World → Prop) : Guarantee fun s s' => P s.world → P s'.world :=
  ⟨fun _ h => h, fun first next h => next (first h), fun _ _ h => h⟩

end Guarantee

/-- A run that leaves the world alone keeps what holds of it. -/
theorem KeepsWorld.ensures {P : World → Prop} (keeps : KeepsWorld x) :
    Ensures (fun s s' => P s.world → P s'.world) x := by
  intro s held
  rw [keeps s]
  exact held

end BuildRunner.Run
