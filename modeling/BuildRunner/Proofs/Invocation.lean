import BuildRunner.Invocation
import BuildRunner.Proofs.Session.Guarantee
import BuildRunner.Proofs.Tree.Resolve

/-!
# Starting a program

A program is started if its file is found, the checks pass and it runs; then the session goes on
with what it left. Otherwise the session stays as it is. What an invocation does beside starting its
program is logging. So the launches of invocations that are run one after the other are theirs in
order, up to the first that cannot be started.
-/

namespace BuildRunner

open Run

/-- A program starts in a world, by a launch and with an outcome. -/
structure Invocation.Starts (programs : Programs) (directory : Path) (invocation : Invocation)
    (w : World) (launch : Launch) (outcome : Outcome) : Prop where
  program : w.executable invocation.program = .ok launch.program
  arguments : launch.arguments = invocation.arguments
  directory : launch.directory = directory
  checked : w.checkLaunch launch = .ok ()
  ran : programs launch w = .ok outcome

/-- The session after a program was started and has ended. -/
def Session.after (s : Session) (launch : Launch) (outcome : Outcome) : Session where
  world := s.world.withFiles outcome.files
  room := s.room
  trace := s.trace ++ [.launched launch, .printed outcome.output, .complained outcome.complaints]

@[simp] theorem Session.after_world (s : Session) (launch : Launch) (outcome : Outcome) :
    (s.after launch outcome).world = s.world.withFiles outcome.files :=
  rfl

@[simp] theorem Session.launches_after (s : Session) (launch : Launch) (outcome : Outcome) :
    (s.after launch outcome).launches = s.launches ++ [launch] := by
  simp [launches, after]

@[simp] theorem Session.launches_log (s : Session) (record : Log.Record) :
    (s.record (.logged record)).launches = s.launches := by
  simp [launches, Session.record]

@[simp] theorem Session.launches_wrote (s : Session) (bytes : List UInt8) :
    (s.record (.wrote bytes)).launches = s.launches := by
  simp [launches, Session.record]

/-- Log records are no launches. -/
theorem launches_guarantee : Guarantee fun s s' => s'.launches = s.launches where
  refl _ := rfl
  trans first next := next.trans first
  log s record := s.launches_log record

namespace Invocation

variable {programs : Programs} {directory : Path} {invocation : Invocation} {s : Session}

/-- What it comes to in a world to start a program: a launch and its outcome, or the fault for which
it cannot be started. -/
def attempt (programs : Programs) (directory : Path) (invocation : Invocation) (w : World) :
    Except Fault (Launch × Outcome) := do
  let program ← w.executable invocation.program
  let launch : Launch := ⟨program, invocation.arguments, directory⟩
  w.checkLaunch launch
  let outcome ← programs launch w
  return (launch, outcome)

theorem attempt_eq_ok {w : World} {launch : Launch} {outcome : Outcome} :
    invocation.attempt programs directory w = .ok (launch, outcome) ↔
      invocation.Starts programs directory w launch outcome := by
  constructor
  · intro attempted
    obtain ⟨program, found, attempted⟩ := World.bind_eq_ok.mp attempted
    obtain ⟨_, checked, attempted⟩ := World.bind_eq_ok.mp attempted
    obtain ⟨_, ran, ended⟩ := World.bind_eq_ok.mp attempted
    cases ended
    exact ⟨found, rfl, rfl, checked, ran⟩
  · obtain ⟨program, arguments, start⟩ := launch
    rintro ⟨found, rfl, rfl, checked, ran⟩
    refine World.bind_eq_ok.mpr ⟨program, found, ?_⟩
    exact World.bind_eq_ok.mpr ⟨(), checked, World.bind_eq_ok.mpr ⟨outcome, ran, rfl⟩⟩

/-- Starting a program is the attempt to start it in the world of the session. Where it fails,
nothing happens. -/
theorem run_start_eq (programs : Programs) (directory : Path) (invocation : Invocation)
    (s : Session) :
    (invocation.start programs directory).run s =
      match invocation.attempt programs directory s.world with
      | .ok (launch, outcome) => .ok outcome.status (s.after launch outcome)
      | .error fault => .error (.io fault) s := by
  rw [start, bind_of_ok (run_world s), attempt]
  cases found : s.world.executable invocation.program with
  | error fault => rfl
  | ok file =>
    rw [bind_of_ok (run_lift_ok _ _ s)]
    dsimp only [bind, Except.bind]
    cases checked : s.world.checkLaunch ⟨file, invocation.arguments, directory⟩ with
    | error fault => rfl
    | ok _ =>
      dsimp only
      cases ran : programs ⟨file, invocation.arguments, directory⟩ s.world with
      | error fault => rfl
      | ok outcome =>
        have events : s.trace ++ [.launched ⟨file, invocation.arguments, directory⟩] ++
            [.printed outcome.output] ++ [.complained outcome.complaints] =
              s.trace ++ [.launched ⟨file, invocation.arguments, directory⟩,
                .printed outcome.output, .complained outcome.complaints] := by simp
        dsimp only [pure, Except.pure]
        rw [Session.after, ← events]
        rfl

/-- A program starts and leaves what it leaves, or it cannot be started and nothing happens. -/
theorem run_start (programs : Programs) (directory : Path) (invocation : Invocation) (s : Session) :
    (∃ launch outcome, invocation.Starts programs directory s.world launch outcome ∧
      (invocation.start programs directory).run s =
        .ok outcome.status (s.after launch outcome)) ∨
      ∃ fault, invocation.attempt programs directory s.world = .error fault ∧
        (invocation.start programs directory).run s = .error (.io fault) s := by
  rw [run_start_eq]
  cases attempted : invocation.attempt programs directory s.world with
  | ok started =>
    obtain ⟨launch, outcome⟩ := started
    exact .inl ⟨launch, outcome, attempt_eq_ok.mp attempted, rfl⟩
  | error fault => exact .inr ⟨fault, rfl, rfl⟩

/-- What a started program leaves is all that changes. -/
theorem ensures_start {R : Session → Session → Prop} (guarantee : Guarantee R)
    (started : ∀ s launch outcome, invocation.Starts programs directory s.world launch outcome →
      R s (s.after launch outcome)) : Ensures R (invocation.start programs directory) := by
  intro s
  rcases run_start programs directory invocation s with
    ⟨launch, outcome, starts, ran⟩ | ⟨fault, _, failed⟩
  · rw [final_of_ok ran]
    exact started s launch outcome starts
  · rw [final_of_error failed]
    exact guarantee.refl s

/-! ## One after the other -/

/-- A launch comes at a position of a list of invocations: those before it have been run, and it
starts in the world they left. -/
def Launches (programs : Programs) (directory : Path) (invocations : List Invocation) (s : Session)
    (position : Nat) (w : World) (launch : Launch) : Prop :=
  ∃ done invocation rest m outcome, invocations = done ++ invocation :: rest ∧
    done.length = position ∧ (runAll programs directory done).run s = .ok () m ∧ m.world = w ∧
    invocation.Starts programs directory w launch outcome

/-- A single invocation launches its program and leaves the files as the program does, or the
program cannot be started and nothing is launched. -/
theorem run_launches (programs : Programs) (directory : Path) (invocation : Invocation)
    (s : Session) :
    (∃ launch outcome m, invocation.Starts programs directory s.world launch outcome ∧
      (invocation.run programs directory).run s = .ok () m ∧
      m.world = s.world.withFiles outcome.files ∧ m.launches = s.launches ++ [launch]) ∨
    ∃ fault m, invocation.attempt programs directory s.world = .error fault ∧
      (invocation.run programs directory).run s = .error (.io fault) m ∧ m.world = s.world ∧
      m.launches = s.launches := by
  rw [run, bind_of_ok (run_log _ _ _ s)]
  rcases run_start programs directory invocation _ with
    ⟨launch, outcome, starts, ran⟩ | ⟨fault, refused, failed⟩
  · left
    rw [bind_of_ok ran]
    by_cases success : outcome.status.isSuccess = true
    · rw [if_pos success]
      exact ⟨launch, outcome, _, starts, rfl, rfl, by simp⟩
    · rw [if_neg success]
      exact ⟨launch, outcome, _, starts, run_log _ _ _ _, rfl, by simp⟩
  · right
    exact ⟨fault, _, refused, bind_of_error failed, rfl, by simp⟩

/-- Programs are launched in the order of the invocations, up to the first that cannot be
started. -/
theorem runAll_launches (programs : Programs) (directory : Path) (invocations : List Invocation)
    (s : Session) : ∃ started,
      ((runAll programs directory invocations).final s).launches = s.launches ++ started ∧
      ∀ position launch, started[position]? = some launch →
        ∃ w, Launches programs directory invocations s position w launch := by
  induction invocations generalizing s with
  | nil => exact ⟨[], (List.append_nil _).symm, fun _ _ found => by cases found⟩
  | cons invocation invocations ih =>
    rw [runAll, final_bind]
    rcases run_launches programs directory invocation s with
      ⟨first, outcome, m, starts, ran, _, launched⟩ | ⟨fault, m, _, failed, _, unchanged⟩
    · obtain ⟨started, launches, comes⟩ := ih m
      rw [ran]
      refine ⟨first :: started, ?_, fun position launch found => ?_⟩
      · rw [launches, launched, List.append_assoc, List.singleton_append]
      · cases position with
        | zero =>
          obtain rfl : first = launch := Option.some.inj found
          exact ⟨s.world, [], invocation, invocations, s, outcome, rfl, rfl, rfl, rfl, starts⟩
        | succ position =>
          obtain ⟨w, done, other, rest, m', outcome', rfl, length, before, world, starts'⟩ :=
            comes position launch found
          refine ⟨w, invocation :: done, other, rest, m', outcome', rfl, ?_, ?_, world, starts'⟩
          · rw [List.length_cons, length]
          · rw [runAll, bind_of_ok ran, before]
    · rw [failed]
      exact ⟨[], by rw [List.append_nil, unchanged], fun _ _ found => by cases found⟩

/-! ## All or up to the first that cannot be started -/

/-- Programs are started one after the other, each in the world that the one before it left. -/
inductive Started (programs : Programs) (directory : Path) :
    World → List Invocation → List Launch → World → Prop
  | none {w : World} : Started programs directory w [] [] w
  | next {w w' : World} {invocation : Invocation} {invocations : List Invocation}
    {launch : Launch} {launches : List Launch} {outcome : Outcome} :
    invocation.Starts programs directory w launch outcome →
    Started programs directory (w.withFiles outcome.files) invocations launches w' →
    Started programs directory w (invocation :: invocations) (launch :: launches) w'

/-- Each launch is in the directory and has the arguments of its invocation. -/
theorem Started.launches_eq {w w' : World} {invocations : List Invocation}
    {launches : List Launch} (started : Started programs directory w invocations launches w') :
    launches.map (fun launch => (launch.arguments, launch.directory)) =
      invocations.map fun invocation => (invocation.arguments, directory) := by
  induction started with
  | none => rfl
  | next starts _ ih => rw [List.map_cons, List.map_cons, ih, starts.arguments, starts.directory]

/-- Invocations that are run are started up to the first that cannot be, with the fault of which the
run fails, and if there is none the run succeeds. -/
theorem run_runAll (programs : Programs) (directory : Path) (invocations : List Invocation)
    (s : Session) : ∃ done rest launches m, invocations = done ++ rest ∧
      Started programs directory s.world done launches m.world ∧
      m.launches = s.launches ++ launches ∧
      (rest = [] ∧ (runAll programs directory invocations).run s = .ok () m ∨
        ∃ refused behind fault, rest = refused :: behind ∧
          refused.attempt programs directory m.world = .error fault ∧
          (runAll programs directory invocations).run s = .error (.io fault) m) := by
  induction invocations generalizing s with
  | nil => exact ⟨[], [], [], s, rfl, .none, (List.append_nil _).symm, .inl ⟨rfl, rfl⟩⟩
  | cons invocation invocations ih =>
    rcases run_launches programs directory invocation s with
      ⟨launch, outcome, mid, starts, ran, left, launched⟩ |
        ⟨fault, m, refused, failed, unchanged, unlaunched⟩
    · obtain ⟨done, rest, launches, m, rfl, started, all, ended⟩ := ih mid
      rw [left] at started
      rw [launched, List.append_assoc, List.singleton_append] at all
      rw [runAll, bind_of_ok ran]
      exact ⟨invocation :: done, rest, launch :: launches, m, rfl, .next starts started, all, ended⟩
    · rw [← unchanged] at refused
      rw [runAll, bind_of_error failed]
      exact ⟨[], _, [], m, rfl, unchanged ▸ .none, unlaunched.trans (List.append_nil _).symm,
        .inr ⟨invocation, invocations, fault, rfl, refused, rfl⟩⟩

end Invocation

end BuildRunner
