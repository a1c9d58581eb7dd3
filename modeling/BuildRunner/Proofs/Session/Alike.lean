import BuildRunner.Proofs.Session.Likeness

/-!
# Sessions that differ in their logs only

Two sessions are alike when they agree in all but the log, and two runs are when they go the same
way from sessions that are alike, to the same end and to sessions that are alike again. What is
logged decides nothing, so every run is like itself, with or without its log records. Runs that are
alike can be replaced by each other in any place.
-/

namespace BuildRunner

/-- Whether an event is a log record. -/
def Event.isLogged : Event → Bool
  | .logged _ => true
  | _ => false

namespace Session

/-- What happened, but for the log. -/
def deeds (s : Session) : List Event :=
  s.trace.filter fun event => !event.isLogged

@[simp] theorem deeds_record (s : Session) (event : Event) :
    (s.record event).deeds = s.deeds ++ [event].filter fun event => !event.isLogged :=
  List.filter_append _ _

/-- Two sessions agree in all but the log. -/
structure Alike (s t : Session) : Prop where
  world : s.world = t.world
  room : s.room = t.room
  deeds : s.deeds = t.deeds

namespace Alike

variable {s t u : Session}

theorem refl (s : Session) : s.Alike s :=
  ⟨rfl, rfl, rfl⟩

theorem trans (h : s.Alike t) (h' : t.Alike u) : s.Alike u :=
  ⟨h.world.trans h'.world, h.room.trans h'.room, h.deeds.trans h'.deeds⟩

theorem record (h : s.Alike t) (event : Event) : (s.record event).Alike (t.record event) :=
  ⟨h.world, h.room, by rw [deeds_record, deeds_record, h.deeds]⟩

theorem log (s : Session) (record : Log.Record) : (s.record (.logged record)).Alike s :=
  ⟨rfl, rfl, by simp [Event.isLogged]⟩

theorem of_logsOnly (h : LogsOnly s t) : t.Alike s := by
  induction h with
  | refl => exact refl _
  | log record _ ih => exact (log _ record).trans ih

/-! ### Views of sessions that are alike -/

/-- A view that leaves the log out depends on all else that happened only. -/
theorem flatMap_eq {α : Type} {view : Event → List α} (h : s.Alike t)
    (blind : ∀ record, view (.logged record) = []) :
    s.trace.flatMap view = t.trace.flatMap view := by
  refine Event.flatMap_eq_of_filter (fun event hide => ?_) h.deeds
  cases event with
  | logged record => exact blind record
  | _ => cases hide

theorem output (h : s.Alike t) : s.output = t.output :=
  h.flatMap_eq fun _ => rfl

theorem printed (h : s.Alike t) : s.printed = t.printed := by
  refine congrArg String.join (Event.filterMap_eq_of_filter (fun event hide => ?_) h.deeds)
  cases event with
  | logged record => rfl
  | _ => cases hide

/-- To agree in all but the log is to be alike. -/
theorem likeness : Likeness Session.Alike :=
  .of_filter Event.isLogged (fun _ => rfl) fun _ _ =>
    ⟨fun h => ⟨h.world, h.room, h.deeds⟩, fun ⟨world, room, deeds⟩ => ⟨world, room, deeds⟩⟩

theorem launches (h : s.Alike t) : s.launches = t.launches :=
  likeness.launches h

end Alike

end Session

namespace Run

variable {β γ : Type} {x y z : Run β} {f g : β → Run γ}

/-- Two runs go the same way from sessions that are alike. -/
def Alike (x y : Run β) : Prop :=
  ∀ s t, s.Alike t → ∃ answer u v,
    x.run s = ended answer u ∧ y.run t = ended answer v ∧ u.Alike v

theorem Alike.symm (h : Alike x y) : Alike y x :=
  Related.symm Session.Alike.likeness h

theorem Alike.trans (h : Alike x y) (h' : Alike y z) : Alike x z :=
  Related.trans Session.Alike.likeness h h'

theorem Alike.bind (first : Alike x y) (next : ∀ answer, Alike (f answer) (g answer)) :
    Alike (x >>= f) (y >>= g) :=
  Related.bind first next

/-- What is logged first makes no difference. -/
theorem Alike.log_bind (h : Alike x y) (level : Log.Level) (part : Log.Part) (text : String) :
    Alike (log level part text >>= fun _ => x) y :=
  Related.note_bind Session.Alike.likeness (fun s => .log s _) h

/-! ## Runs that do not look at the log -/

/-- A run for which sessions that are alike are the same. -/
def Blind (x : Run β) : Prop :=
  Alike x x

theorem blind_pure (answer : β) : Blind (pure answer) :=
  related_pure answer

theorem closed_blind : Closed Blind :=
  closed_related Session.Alike.likeness

end Run

end BuildRunner
