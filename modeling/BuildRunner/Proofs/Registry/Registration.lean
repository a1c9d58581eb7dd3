import BuildRunner.Registry.Basic
import Mathlib.Data.Finset.Card
import Mathlib.Data.Finset.Dedup

/-!
# What calls to register leave behind

A registry is filled by calls that may be refused, and a refused call is no end of it: the registry
stays as it was and the next call is made on it. So the calls are followed with the answer to each
of them, and the law is that the first call under a name is the one that counts.

Everything is said of a registry that has commands already, since this is what the calls after the
first one meet. One call adds its command exactly if the name is free (`attempt`), and what a name
stands for after several calls is what it stood for before, or else the first call under it
(`get?_registerEach`). Answers, names and their number follow from there.
-/

namespace BuildRunner.Registry

variable {α : Type} {registry : Registry α} {call : Command α}

/-! ## One call -/

/-- A call to register a command, with the reason if it is refused: then the registry stays as it
is. -/
def attempt (registry : Registry α) (call : Command α) : Registry α × Option Failure :=
  match registry.register call with
  | .ok registered => (registered, none)
  | .error failure => (registry, some failure)

theorem attempt_of_free (free : registry.get? call.name = none) :
    registry.attempt call = (⟨registry.commands ++ [call]⟩, none) := by
  rw [attempt, register_eq_ok_iff.mpr ⟨free, rfl⟩]

theorem attempt_of_taken (taken : registry.get? call.name ≠ none) :
    registry.attempt call = (registry, some (.duplicateCommand call.name)) := by
  obtain ⟨known, found⟩ := Option.ne_none_iff_exists'.mp taken
  rw [attempt, register, found]

/-- A command is there after a call if its name was free, and no other is added. -/
theorem attempt_commands (registry : Registry α) (call : Command α) :
    (registry.attempt call).1.commands =
      registry.commands ++ if (registry.attempt call).2 = none then [call] else [] := by
  by_cases free : registry.get? call.name = none
  · rw [attempt_of_free free, if_pos rfl]
  · rw [attempt_of_taken free, if_neg (Option.some_ne_none _), List.append_nil]

/-- A refused call leaves the registry as it is. -/
theorem attempt_of_refused {failure : Failure}
    (refused : (registry.attempt call).2 = some failure) :
    (registry.attempt call).1 = registry := by
  by_cases free : registry.get? call.name = none
  · rw [attempt_of_free free] at refused
    cases refused
  · rw [attempt_of_taken free]

/-- After a call a name stands for what it stood for before, or else for the command of the call. -/
theorem get?_attempt (registry : Registry α) (call : Command α) (name : String) :
    (registry.attempt call).1.get? name =
      (registry.get? name).or (if call.name = name then some call else none) := by
  by_cases free : registry.get? call.name = none
  · rw [attempt_of_free free, get?, List.find?_append, ← get?, List.find?_singleton]
    simp only [decide_eq_true_eq]
  · rw [attempt_of_taken free]
    split
    · next own =>
      obtain ⟨known, found⟩ := Option.ne_none_iff_exists'.mp (own ▸ free)
      rw [found, Option.some_or]
    · rw [Option.or_none]

/-- The names of the commands are those that stand for something. -/
theorem mem_names_iff {name : String} :
    name ∈ registry.commands.map Command.name ↔ registry.get? name ≠ none := by
  rw [get?, Ne, List.find?_eq_none]
  simp [eq_comm]

/-- A call gives no name a second command. -/
theorem nodup_attempt (distinct : (registry.commands.map Command.name).Nodup)
    (call : Command α) : ((registry.attempt call).1.commands.map Command.name).Nodup := by
  by_cases free : registry.get? call.name = none
  · rw [attempt_of_free free, List.map_append, List.map_singleton, List.nodup_append]
    refine ⟨distinct, List.nodup_singleton _, ?_⟩
    rintro name known _ (mem : _ ∈ [call.name]) rfl
    rw [List.mem_singleton] at mem
    exact mem_names_iff.mp (mem ▸ known) free
  · rwa [attempt_of_taken free]

/-! ## Calls one after the other -/

/-- Calls one after the other, each made on the registry that the ones before it left, with the
answer to each. -/
def registerEach (registry : Registry α) : List (Command α) → Registry α × List (Option Failure)
  | [] => (registry, [])
  | call :: calls =>
    let (registered, answer) := registry.attempt call
    let (last, answers) := registered.registerEach calls
    (last, answer :: answers)

theorem registerEach_concat (registry : Registry α) (calls : List (Command α)) (call : Command α) :
    (registry.registerEach (calls ++ [call])).1 =
      ((registry.registerEach calls).1.attempt call).1 := by
  induction calls generalizing registry with
  | nil => rfl
  | cons first calls ih => exact ih _

/-- What a name stands for after calls: what it stood for before, or else the first call under
it. -/
theorem get?_registerEach (registry : Registry α) (calls : List (Command α)) (name : String) :
    (registry.registerEach calls).1.get? name =
      (registry.get? name).or (calls.find? fun call => call.name = name) := by
  induction calls generalizing registry with
  | nil => exact (Option.or_none).symm
  | cons call calls ih =>
    rw [registerEach, ih, get?_attempt, Option.or_assoc, List.find?_cons]
    by_cases own : call.name = name <;> simp [own]

/-- The answer to a call is that of one call made on the registry of the calls before it. -/
theorem getElem?_answers (registry : Registry α) (calls : List (Command α)) (i : Nat) :
    (registry.registerEach calls).2[i]? =
      calls[i]?.map fun call => ((registry.registerEach (calls.take i)).1.attempt call).2 := by
  induction calls generalizing registry i with
  | nil => rfl
  | cons call calls ih =>
    cases i with
    | zero => rfl
    | succ i => exact ih _ i

/-- The commands after calls are those before and those of the accepted calls, in order. -/
theorem commands_registerEach (registry : Registry α) (calls : List (Command α)) :
    (registry.registerEach calls).1.commands = registry.commands ++
      ((calls.zip (registry.registerEach calls).2).filter fun made => made.2 = none).map (·.1) := by
  induction calls generalizing registry with
  | nil => exact (List.append_nil _).symm
  | cons call calls ih =>
    rw [registerEach, ih, attempt_commands, List.append_assoc, List.zip_cons_cons,
      List.filter_cons]
    by_cases accepted : (registry.attempt call).2 = none <;> simp [accepted]

theorem nodup_registerEach (distinct : (registry.commands.map Command.name).Nodup)
    (calls : List (Command α)) :
    ((registry.registerEach calls).1.commands.map Command.name).Nodup := by
  induction calls generalizing registry with
  | nil => exact distinct
  | cons call calls ih => exact ih (nodup_attempt distinct call)

/-! ## From the empty registry -/

theorem get?_empty (name : String) : (empty : Registry α).get? name = none :=
  rfl

/-- From the empty registry a name is taken when a call was made under it. -/
theorem get?_registerEach_empty_eq_none {calls : List (Command α)} {name : String} :
    ((empty : Registry α).registerEach calls).1.get? name = none ↔
      name ∉ calls.map Command.name := by
  rw [get?_registerEach, get?_empty, Option.none_or, List.find?_eq_none]
  simp [eq_comm]

/-- **The first call to register a name is the one that counts.** Of calls made one after the other
on the empty registry, each is refused exactly if one before it used the same name, and then as a
duplicate of this name; a refused call leaves the registry as it is. In the end the registry has the
commands of the accepted calls, in the order of the calls, under names of which no two are equal: as
many as there are different names in the calls. A name stands for the command of the first call
under it, and for nothing if there is none. -/
theorem first_registration_counts (calls : List (Command α)) :
    (∀ i, ((empty : Registry α).registerEach calls).2[i]? = calls[i]?.map fun call =>
      if call.name ∈ (calls.take i).map Command.name then some (.duplicateCommand call.name)
      else none) ∧
    (∀ i failure, ((empty : Registry α).registerEach calls).2[i]? = some (some failure) →
      ((empty : Registry α).registerEach (calls.take (i + 1))).1 =
        (empty.registerEach (calls.take i)).1) ∧
    ((empty : Registry α).registerEach calls).1.commands =
      ((calls.zip ((empty : Registry α).registerEach calls).2).filter
        fun made => made.2 = none).map (·.1) ∧
    (((empty : Registry α).registerEach calls).1.commands.map Command.name).Nodup ∧
    ((empty : Registry α).registerEach calls).1.commands.length =
      (calls.map Command.name).toFinset.card ∧
    ∀ name, ((empty : Registry α).registerEach calls).1.get? name =
      calls.find? fun call => call.name = name := by
  have none_yet : ((empty : Registry α).commands.map Command.name).Nodup := List.nodup_nil
  have distinct := nodup_registerEach none_yet calls
  refine ⟨fun i => ?_, fun i failure refused => ?_, ?_, distinct, ?_, fun name => ?_⟩
  · rw [getElem?_answers]
    refine congrArg (Option.map · calls[i]?) (funext fun call => ?_)
    by_cases earlier : call.name ∈ (calls.take i).map Command.name
    · have taken := mt get?_registerEach_empty_eq_none.mp (not_not.mpr earlier)
      rw [attempt_of_taken taken, if_pos earlier]
    · rw [attempt_of_free (get?_registerEach_empty_eq_none.mpr earlier), if_neg earlier]
  · rw [getElem?_answers] at refused
    obtain ⟨call, at_i, refused⟩ := Option.map_eq_some_iff.mp refused
    rw [List.take_add_one, at_i, Option.toList_some, registerEach_concat,
      attempt_of_refused refused]
  · exact commands_registerEach empty calls
  · have same : (((empty : Registry α).registerEach calls).1.commands.map Command.name).toFinset =
        (calls.map Command.name).toFinset := by
      ext name
      rw [List.mem_toFinset, List.mem_toFinset, mem_names_iff, Ne,
        get?_registerEach_empty_eq_none, not_not]
    rw [← same, List.toFinset_card_of_nodup distinct, List.length_map]
  · rw [get?_registerEach, get?_empty, Option.none_or]

/-- Names are compared as they are written: of three calls only the one that repeats a name exactly
is refused, and it changes nothing. -/
theorem first_registration_counts_duplicate :
    let calls : List (Command Unit) :=
      [⟨"docs", "first", none, []⟩, ⟨"Docs", "other", some (), []⟩, ⟨"docs", "second", some (), []⟩]
    (empty.registerEach calls).2[2]? = some (some (.duplicateCommand "docs")) ∧
      (empty.registerEach calls).1 = (empty.registerEach (calls.take 2)).1 := by
  intro calls
  obtain ⟨answers, unchanged, _⟩ := first_registration_counts calls
  have refused := answers 2
  exact ⟨refused, unchanged 2 _ refused⟩

end BuildRunner.Registry
