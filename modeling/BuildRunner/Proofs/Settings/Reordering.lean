import BuildRunner.Proofs.Settings.Change
import Mathlib.Data.List.Basic
import Mathlib.Data.Fin.VecNotation
import Mathlib.Logic.Equiv.Defs

/-!
# Variables in another order

Of two variables the later one counts, but only where they meet: variables whose keys lie on
different ways can change places.

At the end of each way the last variable that changes something there counts. Two variables with
keys on different ways can still change the same bare value, because the section that both lie in is
a table by either of them; then they make the same of it. So it is no matter which of them comes
last, and nothing is taken apart into swaps of neighbours.
-/

namespace BuildRunner

/-! ## Lists in another order -/

section Lists

variable {α β : Type} {Related : α → α → Prop} {l l' front' back' : List α} {a : α}

/-- The members of a list in another order, in which of two that are related the first one still
comes first. -/
def Reordered (Related : α → α → Prop) (l l' : List α) : Prop :=
  ∃ place : Fin l'.length ≃ Fin l.length, (∀ i, l'[i] = l[place i]) ∧
    ∀ i j, i < j → Related l'[i] l'[j] → place i < place j

/-- Those that stood behind a member and are related to it still stand behind it. -/
theorem Reordered.exists_append (reordered : Reordered Related l l') (i : Fin l'.length) :
    ∃ front back, l = front ++ l'[i] :: back ∧
      ∀ b ∈ back, Related b l'[i] → b ∈ l'.drop (i + 1) := by
  obtain ⟨place, same, keeps⟩ := reordered
  refine ⟨l.take (place i), l.drop (place i + 1), ?_, fun b behind related => ?_⟩
  · rw [same i]
    simp
  · obtain ⟨k, within, rfl⟩ := List.mem_drop_iff_getElem.mp behind
    -- The place where this member stands now.
    obtain ⟨j, placed⟩ := place.surjective ⟨place i + 1 + k, by omega⟩
    have moved : l'[j] = l[place i + 1 + k] := by simp only [same j, placed, Fin.getElem_fin]
    have later : place i < place j := by
      simp only [placed, Fin.lt_def]
      omega
    have behind' : i < j := by
      rcases Nat.lt_trichotomy i j with lt | eq | gt
      · exact lt
      · exact absurd (Fin.ext eq ▸ later) (Nat.lt_irrefl _)
      · exact absurd (keeps j i gt (moved ▸ related)) (Nat.lt_asymm later)
    rw [← moved, List.mem_drop_iff_getElem]
    have le : (i : Nat) + 1 ≤ j := behind'
    exact ⟨j - (i + 1), by omega, by simp only [Nat.add_sub_cancel' le, Fin.getElem_fin]⟩

theorem Reordered.mem_of_mem (reordered : Reordered Related l l') (mem : a ∈ l) : a ∈ l' := by
  obtain ⟨place, same, _⟩ := reordered
  obtain ⟨p, within, rfl⟩ := List.getElem_of_mem mem
  obtain ⟨i, placed⟩ := place.surjective ⟨p, within⟩
  have moved : l'[i] = l[p] := by simp only [same i, placed, Fin.getElem_fin]
  exact moved ▸ List.getElem_mem _

/-- Behind the last change there is none. -/
theorem exists_last_change {change : α → Option β} {x : β}
    (last : (l.filterMap change).getLast? = some x) :
    ∃ i : Fin l.length, change l[i] = some x ∧ ∀ b ∈ l.drop (i + 1), change b = none := by
  rw [List.getLast?_filterMap, List.findSome?_eq_some_iff] at last
  obtain ⟨later, a, sooner, split, own, rest⟩ := last
  obtain rfl : l = sooner.reverse ++ a :: later.reverse := by
    rw [← l.reverse_reverse, split]
    simp
  have behind : (sooner.reverse ++ a :: later.reverse).drop (sooner.reverse.length + 1) =
      later.reverse := by
    rw [List.append_cons]
    exact List.drop_left' (by simp)
  refine ⟨⟨sooner.reverse.length, by simp⟩, by simpa using own, fun b mem => rest b ?_⟩
  rwa [behind, List.mem_reverse] at mem

/-- The last change counts. It stays the same if members that are not related change the same. -/
theorem Reordered.getLast?_filterMap {change : α → Option β} (reordered : Reordered Related l l')
    (agree : ∀ a b x y, change a = some x → change b = some y → Related b a ∨ x = y) :
    (l.filterMap change).getLast? = (l'.filterMap change).getLast? := by
  cases last : (l'.filterMap change).getLast? with
  | none =>
    have nothing : ∀ a ∈ l', change a = none := by
      simpa [List.getLast?_eq_none_iff] using last
    rw [List.getLast?_eq_none_iff, List.filterMap_eq_nil_iff]
    exact fun a mem => nothing a (reordered.mem_of_mem mem)
  | some x =>
    obtain ⟨i, own, rest⟩ := exists_last_change last
    obtain ⟨front, back, rfl, stays⟩ := reordered.exists_append i
    -- What changes something behind this member is not related to it, so it changes the same.
    have same : ∀ y ∈ back.filterMap change, y = x := by
      intro y mem
      obtain ⟨b, behind, change⟩ := List.mem_filterMap.mp mem
      obtain related | eq := agree _ b x y own change
      · cases change.symm.trans (rest b (stays b behind related))
      · exact eq.symm
    rw [List.filterMap_append, List.filterMap_cons_some own, List.getLast?_append,
      List.getLast?_cons]
    cases tail : (back.filterMap change).getLast? with
    | none => rfl
    | some y => rw [same y (List.mem_of_getLast? tail)]; rfl

end Lists

namespace Settings

variable {env env' : Environment} {way : List String} {a b : String × String}

/-- Two variables meet when both give settings and the key of one is the front of the other's key,
or all of it. -/
def Meet (a b : String × String) : Prop :=
  ∃ key other, variableKey? a.1 = some key ∧ variableKey? b.1 = some other ∧
    (key <+: other ∨ other <+: key)

instance decidableMeet (a b : String × String) : Decidable (Meet a b) :=
  decidable_of_iff (∃ key ∈ (variableKey? a.1).toList, ∃ other ∈ (variableKey? b.1).toList,
    key <+: other ∨ other <+: key) (by simp [Meet])

/-- Variables that do not meet make the same of a bare value that both change. -/
theorem meet_or_eq {x y : Option Value} (first : variableChange? way a = some x)
    (second : variableChange? way b = some y) : Meet b a ∨ x = y := by
  obtain ⟨key, named, on⟩ := exists_key_of_variableChange? first
  obtain ⟨key', named', on'⟩ := exists_key_of_variableChange? second
  rcases on with before | ⟨behind, rfl⟩ <;> rcases on' with before' | ⟨behind', rfl⟩
  · exact .inl ⟨key', key, named', named, List.prefix_or_prefix_of_prefix before' before⟩
  · exact .inl ⟨key', key, named', named, .inr (before.trans behind')⟩
  · exact .inl ⟨key', key, named', named, .inl (before'.trans behind)⟩
  · exact .inr rfl

/-- What an environment gives depends on its order only where variables meet. -/
theorem bareAt?_fromEnvironment_of_reordered (reordered : Reordered Meet env.pairs env'.pairs)
    (way : List String) :
    (fromEnvironment env').bareAt? way = (fromEnvironment env).bareAt? way := by
  rw [bareAt?_fromEnvironment, bareAt?_fromEnvironment,
    reordered.getLast?_filterMap fun _ _ _ _ => meet_or_eq]

/-- **Variables count in their order only where they meet.** Let the variables of an environment be
put in another order, in which of any two that give settings, the key of one being the front of the
other's or the same, the first one still comes first. Then for every root, and whatever the files
are, the same settings are loaded, or the same refusal is reported. -/
theorem load_of_reordered (w : World) (root : Path) (env : Environment)
    (reordered : Reordered Meet w.environment.pairs env.pairs) :
    load { w with environment := env } root = load w root :=
  load_congr fun part _ way => bareAt?_fromEnvironment_of_reordered reordered (part :: way)

/-- A variable for one setting of a section stays behind the one for the whole section, and passes
two others. -/
theorem load_of_reordered_section :
    let site := ("VASM_X_DOCS__SITE_DIR", "web")
    let docs := ("vasm_x_docs", "\x7bsite_dir = 7, man_out = \"m\"\x7d")
    let zig := ("VASM_X_TOOLS__ZIG", "/zig")
    let home := ("HOME", "/home")
    let w : World := ⟨.empty, [], ⟨[docs, zig, home, site]⟩⟩
    Reordered Meet w.environment.pairs [home, docs, site, zig] ∧
      load { w with environment := ⟨[home, docs, site, zig]⟩ } ⟨"/"⟩ = load w ⟨"/"⟩ := by
  intro site docs zig home w
  let place : Fin 4 ≃ Fin 4 :=
    ⟨![2, 0, 3, 1], ![1, 3, 0, 2], fun i => by decide +revert, fun i => by decide +revert⟩
  have reordered : Reordered Meet w.environment.pairs [home, docs, site, zig] :=
    ⟨place, by decide +kernel, by decide +kernel⟩
  exact ⟨reordered, load_of_reordered w ⟨"/"⟩ ⟨[home, docs, site, zig]⟩ reordered⟩

end Settings

end BuildRunner
