import BuildRunner.Proofs.Session.Final
import BuildRunner.Proofs.Session.Limit
import Mathlib.Data.List.Basic

/-!
# Runs that go the same way

Two runs are related when they go the same way from sessions that are alike in some sense, to the
same end and to sessions that are alike in this sense again. What senses this is good for is said by
`Likeness`: alike sessions agree in all that a run can look at, and stay alike when the same happens
in both. Then every run that is made of the primitives is related to itself, and related parts can
be put together.

What alike sessions may differ in is what runs never look at. If this includes an event, it makes no
difference whether a run begins with it.
-/

namespace BuildRunner

/-- A sense in which sessions can be alike: they agree in the world, in what the output stream still
takes and in the programs started, and the same can happen in both. -/
structure Session.Likeness (R : Session → Session → Prop) : Prop where
  refl (s : Session) : R s s
  symm {s t : Session} : R s t → R t s
  trans {s t u : Session} : R s t → R t u → R s u
  world {s t : Session} : R s t → s.world = t.world
  room {s t : Session} : R s t → s.room = t.room
  launches {s t : Session} : R s t → s.launches = t.launches
  record {s t : Session} (event : Event) : R s t → R (s.record event) (t.record event)
  setWorld {s t : Session} (w : World) : R s t → R { s with world := w } { t with world := w }
  setRoom {s t : Session} (room : Option Nat) : R s t → R { s with room } { t with room }

/-- A view that leaves hidden events out depends on all others only. -/
theorem Event.flatMap_eq_of_filter {α : Type} {hidden : Event → Bool} {view : Event → List α}
    (blind : ∀ event, hidden event = true → view event = []) {a b : List Event}
    (same : a.filter (fun event => !hidden event) = b.filter fun event => !hidden event) :
    a.flatMap view = b.flatMap view := by
  have visible (events : List Event) :
      events.flatMap view = (events.filter fun event => !hidden event).flatMap view := by
    induction events with
    | nil => rfl
    | cons event events ih =>
      rw [List.flatMap_cons, ih]
      cases hide : hidden event with
      | true => simp [hide, blind event hide]
      | false => simp [hide]
  rw [visible, visible b, same]

theorem Event.filterMap_eq_of_filter {α : Type} {hidden : Event → Bool} {view : Event → Option α}
    (blind : ∀ event, hidden event = true → view event = none) {a b : List Event}
    (same : a.filter (fun event => !hidden event) = b.filter fun event => !hidden event) :
    a.filterMap view = b.filterMap view := by
  rw [List.filterMap_eq_flatMap_toList, List.filterMap_eq_flatMap_toList]
  refine flatMap_eq_of_filter (fun event hide => ?_) same
  rw [blind event hide, Option.toList_none]

namespace Session

/-- What happened, but for hidden events. -/
def without (hidden : Event → Bool) (s : Session) : List Event :=
  s.trace.filter fun event => !hidden event

theorem without_record (hidden : Event → Bool) (s : Session) (event : Event) :
    (s.record event).without hidden =
      s.without hidden ++ [event].filter fun event => !hidden event :=
  List.filter_append _ _

/-- Sessions that differ only in events that are hidden are alike, if no launch is hidden. -/
theorem Likeness.of_filter {R : Session → Session → Prop} (hidden : Event → Bool)
    (shown : ∀ launch, hidden (.launched launch) = false)
    (iff : ∀ s t, R s t ↔ s.world = t.world ∧ s.room = t.room ∧
      s.without hidden = t.without hidden) :
    Likeness R where
  refl s := (iff s s).mpr ⟨rfl, rfl, rfl⟩
  symm {s t} h := by
    obtain ⟨world, room, trace⟩ := (iff s t).mp h
    exact (iff t s).mpr ⟨world.symm, room.symm, trace.symm⟩
  trans {s t u} h h' := by
    obtain ⟨world, room, trace⟩ := (iff s t).mp h
    obtain ⟨world', room', trace'⟩ := (iff t u).mp h'
    exact (iff s u).mpr ⟨world.trans world', room.trans room', trace.trans trace'⟩
  world {s t} h := ((iff s t).mp h).1
  room {s t} h := ((iff s t).mp h).2.1
  launches {s t} h := by
    refine Event.filterMap_eq_of_filter (fun event hide => ?_) ((iff s t).mp h).2.2
    cases event with
    | launched launch => cases (shown launch).symm.trans hide
    | _ => rfl
  record {s t} event h := by
    obtain ⟨world, room, trace⟩ := (iff s t).mp h
    refine (iff _ _).mpr ⟨world, room, ?_⟩
    rw [without_record, without_record, trace]
  setWorld {s t} w h := (iff _ _).mpr ⟨rfl, ((iff s t).mp h).2⟩
  setRoom {s t} room h := (iff _ _).mpr ⟨((iff s t).mp h).1, rfl, ((iff s t).mp h).2.2⟩

/-- Two sessions agree in all but hidden events. -/
structure SameBut (hidden : Event → Bool) (s t : Session) : Prop where
  world : s.world = t.world
  room : s.room = t.room
  rest : s.without hidden = t.without hidden

namespace SameBut

variable {hidden : Event → Bool}

theorem likeness (shown : ∀ launch, hidden (.launched launch) = false) :
    Likeness (SameBut hidden) :=
  .of_filter hidden shown fun _ _ =>
    ⟨fun h => ⟨h.world, h.room, h.rest⟩, fun ⟨world, room, rest⟩ => ⟨world, room, rest⟩⟩

/-- An event that is hidden makes no difference. -/
theorem record {event : Event} (hide : hidden event = true) (s : Session) :
    SameBut hidden (s.record event) s :=
  ⟨rfl, rfl, by simp [without_record, hide]⟩

end SameBut

end Session

namespace Run

variable {β γ : Type} {R : Session → Session → Prop} {x y z : Run β} {f g : β → Run γ}

/-! ## Ends of runs -/

theorem final_of_ended {answer : Except Failure β} {s u : Session} (h : x.run s = ended answer u) :
    x.final s = u := by
  cases answer with
  | ok answer => exact final_of_ok h
  | error failure => exact final_of_error h

/-! ## Related runs -/

/-- Two runs go the same way from sessions that are alike. -/
def Related (R : Session → Session → Prop) (x y : Run β) : Prop :=
  ∀ s t, R s t → ∃ answer u v, x.run s = ended answer u ∧ y.run t = ended answer v ∧ R u v

theorem Related.bind (first : Related R x y) (next : ∀ answer, Related R (f answer) (g answer)) :
    Related R (x >>= f) (y >>= g) := by
  intro s t same
  obtain ⟨answer, u, v, left, right, ends⟩ := first s t same
  cases answer with
  | ok answer =>
    rw [bind_of_ok left, bind_of_ok right]
    exact next answer u v ends
  | error failure =>
    exact ⟨.error failure, u, v, bind_of_error left, bind_of_error right, ends⟩

/-- To look at the session makes no difference where sessions that are alike lead on alike. -/
theorem Related.get_bind {f g : Session → Run β}
    (next : ∀ s t, R s t → Related R (f s) (g t)) : Related R (get >>= f) (get >>= g) :=
  fun s t same => next s t same s t same

theorem related_pure (answer : β) : Related R (pure answer) (pure answer) :=
  fun s t same => ⟨.ok answer, s, t, rfl, rfl, same⟩

theorem related_throw (failure : Failure) :
    Related R (throw failure : Run β) (throw failure) :=
  fun s t same => ⟨.error failure, s, t, rfl, rfl, same⟩

variable (like : Session.Likeness R)

include like

theorem Related.symm (h : Related R x y) : Related R y x := by
  intro s t same
  obtain ⟨answer, u, v, first, second, ends⟩ := h t s (like.symm same)
  exact ⟨answer, v, u, second, first, like.symm ends⟩

theorem Related.trans (h : Related R x y) (h' : Related R y z) : Related R x z := by
  intro s t same
  obtain ⟨answer, u, v, first, second, ends⟩ := h s s (like.refl s)
  obtain ⟨answer', v', w, second', third, ends'⟩ := h' s t same
  obtain ⟨rfl, rfl⟩ := ended_inj (second.symm.trans second')
  exact ⟨answer, u, w, first, third, like.trans ends ends'⟩

/-- An event that alike sessions may differ in can come first in one of two runs. -/
theorem Related.note_bind {event : Event} (hides : ∀ s, R (s.record event) s)
    (h : Related R x y) : Related R (note event >>= fun _ => x) y := by
  intro s t same
  exact h _ t (like.trans (hides s) same)

theorem related_note (event : Event) : Related R (note event) (note event) :=
  fun _ _ same => ⟨.ok (), _, _, rfl, rfl, like.record event same⟩

theorem related_world : Related R world world :=
  fun s t same => ⟨.ok s.world, s, t, rfl, by rw [like.world same]; rfl, same⟩

theorem related_setWorld (w : World) : Related R (setWorld w) (setWorld w) :=
  fun _ _ same => ⟨.ok (), _, _, rfl, rfl, like.setWorld w same⟩

/-- The runs that are related to themselves. -/
theorem closed_related : Closed fun x => Related R x x :=
  ⟨related_pure, related_throw, fun _ _ _ => related_note like _, related_world like, Related.bind⟩

/-- What a write looks at is how much the stream still takes. -/
theorem related_write (text : String) : Related R (write text) (write text) := by
  have setRoom (room : Nat) : Related R (modify fun s : Session => { s with room := some room })
      (modify fun s : Session => { s with room := some room }) :=
    fun _ _ same => ⟨.ok (), _, _, rfl, rfl, like.setRoom _ same⟩
  rw [write, writeBytes]
  refine Related.get_bind fun s t same => ?_
  rw [like.room same]
  cases t.room with
  | none => exact related_note like _
  | some room =>
    refine (setRoom _).bind fun _ => (related_note like _).bind fun _ => ?_
    split
    · exact related_throw _
    · exact related_pure ()

end Run

end BuildRunner
