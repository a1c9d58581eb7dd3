import BuildRunner.Proofs.Session

/-!
# Runs under a limit on the output stream

The same run is made twice, once with a stream that takes everything and once with one that takes a
number of bytes and then fails. Up to the write that does not fit the two are the same run, so the
limited trace is the unlimited one cut in this write (`cut`), and what was written is the first
bytes of what the other wrote (`written_cut`).

`Limited` says this of a run. It holds of every write and of every run that leaves the stream alone
(`Silent`), and of a run made of two for which it holds, because a stream that takes `room` bytes
takes the rest of `room` after the first run. So it holds of all runs that are put together from
these, whatever else they do.
-/

namespace BuildRunner

/-! ## What events write -/

/-- The bytes that an event writes to the output stream. -/
def Event.bytes : Event → List UInt8
  | .wrote bytes => bytes
  | _ => []

/-- An action is announced, or a recipe begins. -/
def Event.isStart : Event → Bool
  | .logged record => record.part = .registry
  | .began _ => true
  | _ => false

namespace Session

/-- What events write to the output stream. -/
def written (events : List Event) : List UInt8 :=
  events.flatMap Event.bytes

/-- The actions started: what was announced, and the recipes begun. -/
def starts (s : Session) : List Event :=
  s.trace.filter Event.isStart

/-- Events up to the first write that does not fit into `room` bytes, and of this one as many bytes
as do. -/
def cut : Nat → List Event → List Event
  | _, [] => []
  | room, event :: events =>
    if event.bytes.length ≤ room then event :: cut (room - event.bytes.length) events
    else [.wrote (event.bytes.take room)]

@[simp] theorem written_nil : written [] = [] :=
  rfl

@[simp] theorem written_cons (event : Event) (events : List Event) :
    written (event :: events) = event.bytes ++ written events :=
  List.flatMap_cons

@[simp] theorem written_append (a b : List Event) : written (a ++ b) = written a ++ written b :=
  List.flatMap_append

variable {room : Nat} {a b events : List Event}

/-- What is written up to the cut is what fits. -/
theorem written_cut (room : Nat) (events : List Event) :
    written (cut room events) = (written events).take room := by
  induction events generalizing room with
  | nil => rw [cut, written_nil, List.take_nil]
  | cons event events ih =>
    rw [cut, written_cons, List.take_append]
    split
    · next fits => rw [written_cons, ih, List.take_of_length_le fits]
    · next beyond =>
      rw [Nat.sub_eq_zero_of_le (by omega), List.take_zero, List.append_nil]
      exact List.append_nil _

theorem cut_append_of_fits (fits : (written a).length ≤ room) (b : List Event) :
    cut room (a ++ b) = a ++ cut (room - (written a).length) b := by
  induction a generalizing room with
  | nil => rfl
  | cons event a ih =>
    rw [written_cons, List.length_append] at fits
    rw [List.cons_append, cut, if_pos (by omega), ih (by omega), written_cons, List.length_append,
      Nat.sub_sub, List.cons_append]

theorem cut_append_of_beyond (beyond : room < (written a).length) (b : List Event) :
    cut room (a ++ b) = cut room a := by
  induction a generalizing room with
  | nil => cases beyond
  | cons event a ih =>
    rw [written_cons, List.length_append] at beyond
    rw [List.cons_append, cut, cut]
    split
    · rw [ih (by omega)]
    · rfl

/-- Up to the cut the same actions are started, in the same order. -/
theorem filter_isStart_cut (room : Nat) (events : List Event) :
    (cut room events).filter Event.isStart <+: events.filter Event.isStart := by
  induction events generalizing room with
  | nil => exact List.prefix_rfl
  | cons event events ih =>
    rw [cut, List.filter_cons]
    split
    · rw [List.filter_cons]
      split
      · exact List.cons_prefix_cons.mpr ⟨rfl, ih _⟩
      · exact ih _
    · exact List.nil_prefix

end Session

/-! ## Runs and their ends -/

namespace Run

variable {β γ : Type} {x : Run β}

/-- The end of a run: an answer or a failure, and the session reached. -/
def ended : Except Failure β → Session → EStateM.Result Failure Session β
  | .ok answer, s => .ok answer s
  | .error failure, s => .error failure s

theorem ended_inj {answer answer' : Except Failure β} {u v : Session}
    (h : ended answer u = ended answer' v) : answer = answer' ∧ u = v := by
  cases answer <;> cases answer' <;> cases h <;> exact ⟨rfl, rfl⟩

/-- A run that writes nothing, and goes the same way whatever the stream still takes. -/
def Silent (x : Run β) : Prop :=
  ∀ w trace, ∃ answer w' events, Session.written events = [] ∧
    ∀ room, x.run ⟨w, room, trace⟩ = ended answer ⟨w', room, trace ++ events⟩

/-- How a run goes on a stream without a limit, and on one that takes `room` bytes: the same way if
all that is written fits, and else up to the write that does not fit, with which it fails. -/
def Limited (x : Run β) : Prop :=
  ∀ w trace, ∃ answer w' events, x.run ⟨w, none, trace⟩ = ended answer ⟨w', none, trace ++ events⟩ ∧
    ∀ room, ((Session.written events).length ≤ room → x.run ⟨w, some room, trace⟩ =
        ended answer ⟨w', some (room - (Session.written events).length), trace ++ events⟩) ∧
      (room < (Session.written events).length → ∃ left, x.run ⟨w, some room, trace⟩ =
        .error (.io .streamFull) ⟨left, some 0, trace ++ Session.cut room events⟩)

/-! ## Silent runs -/

theorem silent_pure (answer : β) : Silent (pure answer) :=
  fun w trace => ⟨.ok answer, w, [], rfl, fun room => by rw [List.append_nil]; rfl⟩

theorem silent_throw (failure : Failure) : Silent (throw failure : Run β) :=
  fun w trace => ⟨.error failure, w, [], rfl, fun room => by rw [List.append_nil]; rfl⟩

theorem silent_world : Silent world :=
  fun w trace => ⟨.ok w, w, [], rfl, fun room => by rw [List.append_nil]; rfl⟩

theorem silent_setWorld (w : World) : Silent (setWorld w) :=
  fun _ trace => ⟨.ok (), w, [], rfl, fun room => by rw [List.append_nil]; rfl⟩

theorem silent_note {event : Event} (nothing : event.bytes = []) : Silent (note event) :=
  fun w trace => ⟨.ok (), w, [event], by simp [nothing], fun room => rfl⟩

theorem silent_log (level : Log.Level) (part : Log.Part) (text : String) :
    Silent (log level part text) :=
  silent_note rfl

theorem Silent.bind {f : β → Run γ} (first : Silent x) (next : ∀ answer, Silent (f answer)) :
    Silent (x >>= f) := by
  intro w trace
  obtain ⟨answer, w₁, events₁, nothing₁, run₁⟩ := first w trace
  cases answer with
  | error failure =>
    exact ⟨.error failure, w₁, events₁, nothing₁, fun room => bind_of_error (run₁ room)⟩
  | ok answer =>
    obtain ⟨answer₂, w₂, events₂, nothing₂, run₂⟩ := next answer w₁ (trace ++ events₁)
    refine ⟨answer₂, w₂, events₁ ++ events₂, by simp [nothing₁, nothing₂], fun room => ?_⟩
    rw [bind_of_ok (run₁ room), run₂, List.append_assoc]

theorem closed_silent : Closed Silent :=
  ⟨silent_pure, silent_throw, silent_log, silent_world, Silent.bind⟩

/-! ## Runs under a limit -/

theorem Silent.limited (silent : Silent x) : Limited x := by
  intro w trace
  obtain ⟨answer, w', events, nothing, run⟩ := silent w trace
  refine ⟨answer, w', events, run none, fun room => ⟨fun _ => ?_, fun beyond => ?_⟩⟩
  · rw [nothing]
    exact run (some room)
  · rw [nothing] at beyond
    cases beyond

theorem limited_write (text : String) : Limited (write text) := by
  intro w trace
  refine ⟨.ok (), w, [.wrote (Text.utf8 text)], run_write_unlimited text rfl, fun room => ?_⟩
  have whole : Session.written [.wrote (Text.utf8 text)] = Text.utf8 text := List.append_nil _
  rw [whole]
  constructor
  · intro fits
    simp [write, writeBytes, Nat.not_lt.mpr fits, List.take_of_length_le fits, ended,
      Session.record]
  · intro beyond
    refine ⟨w, ?_⟩
    simp [write, writeBytes, beyond, Session.cut, Event.bytes, Nat.not_le.mpr beyond,
      Session.record, Nat.sub_eq_zero_of_le (Nat.le_of_lt beyond)]

theorem Limited.bind {f : β → Run γ} (first : Limited x) (next : ∀ answer, Limited (f answer)) :
    Limited (x >>= f) := by
  intro w trace
  obtain ⟨answer, w₁, events₁, run₁, under₁⟩ := first w trace
  cases answer with
  | error failure =>
    refine ⟨.error failure, w₁, events₁, bind_of_error run₁, fun room => ?_⟩
    obtain ⟨fits₁, beyond₁⟩ := under₁ room
    refine ⟨fun fits => bind_of_error (fits₁ fits), fun beyond => ?_⟩
    obtain ⟨left, failed⟩ := beyond₁ beyond
    exact ⟨left, bind_of_error failed⟩
  | ok answer =>
    obtain ⟨answer₂, w₂, events₂, run₂, under₂⟩ := next answer w₁ (trace ++ events₁)
    refine ⟨answer₂, w₂, events₁ ++ events₂, ?_, fun room => ?_⟩
    · rw [bind_of_ok run₁, run₂, List.append_assoc]
    obtain ⟨fits₁, beyond₁⟩ := under₁ room
    rw [Session.written_append, List.length_append]
    -- the stream is full in the first run, in the second, or in neither
    rcases Nat.lt_or_ge room (Session.written events₁).length with beyond | fits
    · refine ⟨fun all => by omega, fun _ => ?_⟩
      obtain ⟨left, failed⟩ := beyond₁ beyond
      exact ⟨left, by rw [bind_of_error failed, Session.cut_append_of_beyond beyond]⟩
    · obtain ⟨fits₂, beyond₂⟩ := under₂ (room - (Session.written events₁).length)
      refine ⟨fun all => ?_, fun beyond => ?_⟩
      · rw [bind_of_ok (fits₁ fits), fits₂ (by omega), Nat.sub_sub, List.append_assoc]
      · obtain ⟨left, failed⟩ := beyond₂ (by omega)
        refine ⟨left, ?_⟩
        rw [bind_of_ok (fits₁ fits), failed, Session.cut_append_of_fits fits, List.append_assoc]

theorem closed_limited : Closed Limited where
  of_pure answer := (silent_pure answer).limited
  of_throw failure := (silent_throw failure).limited
  of_log level part text := (silent_log level part text).limited
  of_world := silent_world.limited
  of_bind := Limited.bind

/-- What a limit makes of a run that writes `text` without one: nothing if the text fits, and else
the stream fails when as many bytes as it takes are written. -/
theorem Limited.run_of_unlimited {answer : Except Failure β} {w : World} {trace : List Event}
    {u : Session} {text : List UInt8} (limited : Limited x)
    (ran : x.run ⟨w, none, trace⟩ = ended answer u)
    (output : u.output = Session.written trace ++ text) (limit : Nat) :
    (text.length ≤ limit →
      x.run ⟨w, some limit, trace⟩ = ended answer { u with room := some (limit - text.length) }) ∧
    (limit < text.length → ∃ l, x.run ⟨w, some limit, trace⟩ = .error (.io .streamFull) l ∧
      l.output = Session.written trace ++ text.take limit) := by
  obtain ⟨answer', w', events, ran', under⟩ := limited w trace
  obtain ⟨rfl, rfl⟩ := ended_inj (ran.symm.trans ran')
  obtain rfl : Session.written events = text :=
    List.append_cancel_left ((Session.written_append trace events).symm.trans output)
  refine ⟨(under limit).1, fun beyond => ?_⟩
  obtain ⟨left, failed⟩ := (under limit).2 beyond
  refine ⟨_, failed, ?_⟩
  rw [← Session.written_cut]
  exact Session.written_append trace _

/-- A stream without a limit is without one to the end. -/
theorem Limited.room_eq_none {answer : β} {s m : Session} (limited : Limited x)
    (ran : x.run s = .ok answer m) (unlimited : s.room = none) : m.room = none := by
  obtain ⟨w, room, trace⟩ := s
  cases unlimited
  obtain ⟨answer', w', events, ran', _⟩ := limited w trace
  cases answer' with
  | ok _ =>
    cases ran.symm.trans ran'
    rfl
  | error failure => cases ran.symm.trans ran'

end Run

end BuildRunner
