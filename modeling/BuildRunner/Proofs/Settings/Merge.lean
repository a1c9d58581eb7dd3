import BuildRunner.Settings.Value
import Mathlib.Data.List.Basic

/-!
# One value in merged tables

A table is merged into another one name by name, so what becomes of one value is decided on the way
of names that leads to it. At the end of a way the later table either leaves what is there or
decides it without looking at it (`bareAt?_merge`). It decides where it has a value of its own, and
also where a value other than a table stands on the way, which takes away all below it. Where
nothing but tables stands on the way in the later table, the later table counts at its end if it has
a value there, and the earlier one if it has none (`textAt?_merge`). All other values may be of any
kind and may collide in any manner.

Of a value that is a table only the source is followed here, not what it holds, since that is all
that is ever looked at, and unlike the value itself it does not depend on what the value was merged
into.

Merging is not associative. A table merged into a simple value takes its place, and what the simple
value took away before does not come back, while the two of them, merged first, take nothing away.
So what merged tables change is not what the single ones change one after the other, and it is read
off the merged table itself (`change?_congr`).

The names of the later table have to be distinct, which the type of tables does not say. Every
operation on tables keeps them so.
-/

namespace BuildRunner.Settings

variable {value before : Value} {table other earlier earlier' later later' inner : Table}
  {name : String} {way key : List String} {source : Source}

/-! ## Distinct names -/

mutual

/-- Each table at and below a value has a name once. What stands in lists does not matter, since
nothing is merged into it. -/
def Value.Distinct : Value → Prop
  | .table _ entries => entries.Distinct
  | .scalar .. => True
  | .list .. => True

/-- A table and all those below it have a name once. -/
def Table.Distinct : Table → Prop
  | .empty => True
  | .entry name value rest => rest.find? name = none ∧ value.Distinct ∧ rest.Distinct

end

namespace Table

theorem Distinct.find? (distinct : table.Distinct) (found : table.find? name = some value) :
    value.Distinct := by
  fun_induction Table.find? table name with
  | case1 => cases found
  | case2 =>
    cases found
    exact distinct.2.1
  | case3 other old rest wanted ne ih => exact ih distinct.2.2 found

theorem Distinct.put (distinct : table.Distinct) (inner : value.Distinct) (name : String) :
    (table.put name value).Distinct := by
  fun_induction Table.put name value table with
  | case1 => exact ⟨rfl, inner, trivial⟩
  | case2 old rest => exact ⟨distinct.1, inner, distinct.2.2⟩
  | case3 other old rest ne ih =>
    refine ⟨?_, distinct.2.1, ih distinct.2.2⟩
    rw [find?_put, if_neg (Ne.symm ne)]
    exact distinct.1

theorem distinct_ofList {pairs : List (String × Value)} (inner : ∀ pair ∈ pairs, pair.2.Distinct) :
    (ofList pairs).Distinct := by
  suffices ∀ table : Table, table.Distinct →
      (pairs.foldl (fun table pair => table.put pair.1 pair.2) table).Distinct from
    this .empty trivial
  induction pairs with
  | nil => exact fun _ distinct => distinct
  | cons pair pairs ih =>
    obtain ⟨own, others⟩ := List.forall_mem_cons.mp inner
    exact fun table distinct => ih others _ (distinct.put own pair.1)

theorem distinct_nest (source : Source) (inner : value.Distinct) (key : List String) :
    (nest source value key).Distinct := by
  fun_induction nest source value key with
  | case1 => trivial
  | case2 name => exact ⟨rfl, inner, trivial⟩
  | case3 name names more ih => exact ⟨rfl, ih, trivial⟩

/-- What a value becomes when it is merged in under a name. -/
def combined (earlier : Table) (name : String) (value : Value) : Value :=
  match earlier.find? name with
  | some before => before.merge value
  | none => value

theorem merge_entry (earlier : Table) (name : String) (value : Value) (rest : Table) :
    earlier.merge (.entry name value rest) =
      (earlier.put name (earlier.combined name value)).merge rest := by
  rw [merge]
  rfl

end Table

namespace Value

@[simp] theorem merge_scalar (before : Value) (content : Scalar) :
    before.merge (.scalar source content) = .scalar source content := by
  cases before <;> simp [merge]

@[simp] theorem merge_list (before : Value) (items : List Value) :
    before.merge (.list source items) = .list source items := by
  cases before <;> simp [merge]

theorem merge_table (before : Value) (later : Table) :
    before.merge (.table source later) = .table source (match before with
      | .table _ earlier => earlier.merge later
      | _ => later) := by
  cases before <;> simp [merge]

end Value

mutual

theorem Value.distinct_merge : (before value : Value) → before.Distinct → value.Distinct →
    (before.merge value).Distinct
  | before, .scalar .., _, _ => by
    rw [Value.merge_scalar]
    trivial
  | before, .list .., _, _ => by
    rw [Value.merge_list]
    trivial
  | before, .table source later, first, distinct => by
    rw [Value.merge_table]
    cases before with
    | table _ earlier => exact Table.distinct_merge earlier later first distinct
    | scalar _ content => exact distinct
    | list _ items => exact distinct

/-- Merging keeps names distinct. -/
theorem Table.distinct_merge : (earlier later : Table) → earlier.Distinct → later.Distinct →
    (earlier.merge later).Distinct
  | earlier, .empty, first, _ => by
    rw [Table.merge]
    exact first
  | earlier, .entry name value rest, first, distinct => by
    rw [Table.merge_entry]
    refine Table.distinct_merge _ rest (first.put ?_ name) distinct.2.2
    rw [Table.combined]
    cases found : earlier.find? name with
    | none => exact distinct.2.1
    | some before => exact Value.distinct_merge before value (first.find? found) distinct.2.1

end

/-! ## Where tables stand on the way -/

/-- The text that a value is, if it is one. -/
def Value.text? : Value → Option String
  | .scalar _ (.text text) => some text
  | _ => none

namespace Table

/-- What a name stands for in merged tables. -/
theorem find?_merge : (earlier later : Table) → later.Distinct → (name : String) →
    (earlier.merge later).find? name =
      match later.find? name with
      | some value => some (earlier.combined name value)
      | none => earlier.find? name
  | earlier, .empty, _, name => by rw [merge]; rfl
  | earlier, .entry other value rest, distinct, name => by
    rw [merge_entry, find?_merge _ rest distinct.2.2 name, Table.find?]
    by_cases same : other = name
    · subst same
      rw [distinct.1, if_pos rfl, find?_put, if_pos rfl]
    · generalize earlier.combined other value = merged
      have kept : (earlier.put other merged).find? name = earlier.find? name := by
        rw [find?_put, if_neg same]
      simp only [if_neg same, combined, kept]

/-- The value that a way of names leads to through tables. -/
def at? : Table → List String → Option Value
  | _, [] => none
  | table, [name] => table.find? name
  | table, name :: next :: way =>
    match table.find? name with
    | some (.table _ inner) => inner.at? (next :: way)
    | _ => none

/-- A value deeper down stands in a table. -/
theorem exists_table_of_at? {next : String} (found : table.at? (name :: next :: way) = some value) :
    ∃ source inner, table.find? name = some (.table source inner) := by
  rw [at?] at found
  split at found
  · next source inner known => exact ⟨source, inner, known⟩
  · cases found

/-- Whether the value that a way leads to is a text, and which. -/
def textAt? (table : Table) (way : List String) : Option (Option String) :=
  (table.at? way).map Value.text?

@[simp] theorem textAt?_empty (way : List String) : Table.empty.textAt? way = none := by
  obtain - | ⟨name, - | ⟨next, way⟩⟩ := way <;> rfl

/-- Nothing but tables stands on a way before its end. -/
def Open : Table → List String → Prop
  | _, [] => True
  | _, [_] => True
  | table, name :: next :: way =>
    match table.find? name with
    | none => True
    | some (.table _ inner) => inner.Open (next :: way)
    | some _ => False

theorem open_empty (way : List String) : Table.empty.Open way := by
  obtain - | ⟨name, - | ⟨next, way⟩⟩ := way <;> trivial

/-- The entries of a table in merged tables: merged, if the earlier table has one there, too. -/
theorem exists_table_merge (earlier : Table) (distinct : later.Distinct)
    (found : later.find? name = some (.table source inner)) :
    ∃ merged, (earlier.merge later).find? name = some (.table source merged) ∧
      ((∃ other own, earlier.find? name = some (.table other own) ∧ merged = own.merge inner) ∨
        (∀ other own, earlier.find? name ≠ some (.table other own)) ∧ merged = inner) := by
  rw [find?_merge earlier later distinct, found]
  cases present : earlier.find? name with
  | none => exact ⟨inner, by simp [combined, present], .inr ⟨nofun, rfl⟩⟩
  | some before =>
    simp only [combined, present, Value.merge_table]
    cases before with
    | table other own => exact ⟨_, rfl, .inl ⟨other, own, rfl, rfl⟩⟩
    | scalar _ content => exact ⟨_, rfl, .inr ⟨nofun, rfl⟩⟩
    | list _ items => exact ⟨_, rfl, .inr ⟨nofun, rfl⟩⟩

/-- Tables stay on the way when tables are merged. -/
theorem Open.merge (distinct : later.Distinct) (first : earlier.Open way) (leads : later.Open way) :
    (earlier.merge later).Open way := by
  fun_induction Open later way generalizing earlier with
  | case1 later => trivial
  | case2 later name => trivial
  | case3 later name next way absent =>
    rw [Open] at first ⊢
    rwa [find?_merge earlier later distinct, absent]
  | case4 later name next way source inner found ih =>
    obtain ⟨merged, present, ⟨other, own, before, rfl⟩ | ⟨_, rfl⟩⟩ :=
      exists_table_merge earlier distinct found
    · rw [Open, before] at first
      rw [Open, present]
      exact ih (distinct.find? found) first leads
    · rw [Open, present]
      exact leads
  | case5 later name next way other found ne => exact leads.elim

end Table

/-! ## What merging changes -/

namespace Value

/-- A value without what stands in it, if it is a table. -/
def bare : Value → Value
  | .table source _ => .table source .empty
  | .scalar source content => .scalar source content
  | .list source items => .list source items

/-- A value that is no table. -/
def plain? : Value → Option Value
  | .table .. => none
  | .scalar source content => some (.scalar source content)
  | .list source items => some (.list source items)

@[simp] theorem plain?_bare (value : Value) : value.bare.plain? = value.plain? := by
  cases value <;> rfl

@[simp] theorem text?_bare (value : Value) : value.bare.text? = value.text? := by
  cases value <;> rfl

/-- What a value was merged into does not show in it but for what stands in a table. -/
@[simp] theorem bare_merge (before value : Value) : (before.merge value).bare = value.bare := by
  cases value with
  | scalar source content => rw [merge_scalar]
  | list source items => rw [merge_list]
  | table source later =>
    rw [merge_table]
    rfl

end Value

namespace Table

/-- The bare value at the end of a way. -/
def bareAt? (table : Table) (way : List String) : Option Value :=
  (table.at? way).map Value.bare

/-- The value of a name, if it is no table. -/
def plain? (table : Table) (name : String) : Option Value :=
  (table.find? name).bind Value.plain?

/-- The table of a name: the empty one if the name stands for something else. -/
def inside (table : Table) (name : String) : Table :=
  match table.find? name with
  | some (.table _ inner) => inner
  | _ => .empty

/-- What merging a table into another one makes of the bare value at the end of a way: nothing, or
else the value that is there afterwards, if there is one. -/
def change? : Table → List String → Option (Option Value)
  | _, [] => none
  | table, [name] => (table.find? name).map fun value => some value.bare
  | table, name :: next :: way =>
    match table.plain? name with
    | some _ => some none
    | none => (table.inside name).change? (next :: way)

theorem at?_empty (way : List String) : Table.empty.at? way = none := by
  obtain - | ⟨name, - | ⟨next, way⟩⟩ := way <;> rfl

@[simp] theorem bareAt?_empty (way : List String) : Table.empty.bareAt? way = none := by
  rw [bareAt?, at?_empty, Option.map_none]

theorem bareAt?_singleton (table : Table) (name : String) :
    table.bareAt? [name] = (table.find? name).map Value.bare :=
  rfl

theorem plain?_eq (table : Table) (name : String) :
    table.plain? name = (table.bareAt? [name]).bind Value.plain? := by
  rw [plain?, bareAt?_singleton]
  cases table.find? name <;> simp

theorem textAt?_eq (table : Table) (way : List String) :
    table.textAt? way = (table.bareAt? way).map Value.text? := by
  rw [textAt?, bareAt?, Option.map_map]
  exact congrArg (Option.map · _) (funext fun value => (value.text?_bare).symm)

theorem inside_of_find? (found : table.find? name = some (.table source inner)) :
    table.inside name = inner := by
  rw [inside, found]

theorem inside_eq_empty (no : ∀ source inner, table.find? name ≠ some (.table source inner)) :
    table.inside name = .empty := by
  rw [inside]
  split
  · next source inner found => exact absurd found (no source inner)
  · rfl

theorem find?_of_plain? (found : table.plain? name = some value) :
    table.find? name = some value := by
  obtain ⟨own, present, plain⟩ := Option.bind_eq_some_iff.mp found
  cases own with
  | table => cases plain
  | scalar | list =>
    cases plain
    exact present

/-- A name that is no simple value has a table, or no value. -/
theorem find?_of_plain?_eq_none (plain : table.plain? name = none) :
    table.find? name = none ∨ ∃ source inner, table.find? name = some (.table source inner) := by
  rw [plain?] at plain
  cases found : table.find? name with
  | none => exact .inl rfl
  | some value =>
    rw [found] at plain
    cases value with
    | table source inner => exact .inr ⟨source, inner, rfl⟩
    | scalar | list => cases plain

theorem open_of_plain? (plain : table.plain? name = none) (next : String) :
    table.Open [name, next] := by
  rw [Open]
  obtain absent | ⟨source, inner, found⟩ := find?_of_plain?_eq_none plain
  · rw [absent]
    trivial
  · rw [found]
    trivial

/-- Inside a simple value there is nothing. -/
theorem inside_of_plain? (found : table.plain? name = some value) : table.inside name = .empty := by
  refine inside_eq_empty fun source inner present => ?_
  rw [plain?, present] at found
  cases found

theorem bareAt?_cons_cons (table : Table) (name next : String) (way : List String) :
    table.bareAt? (name :: next :: way) = (table.inside name).bareAt? (next :: way) := by
  rw [bareAt?, at?, inside]
  split
  · rfl
  · rw [bareAt?_empty, Option.map_none]

theorem change?_empty (way : List String) : Table.empty.change? way = none := by
  induction way with
  | nil => rfl
  | cons name way ih =>
    cases way with
    | nil => rfl
    | cons next way => exact ih

theorem change?_singleton (table : Table) (name : String) :
    table.change? [name] = (table.bareAt? [name]).map some := by
  rw [bareAt?_singleton, Option.map_map]
  rfl

/-- Merged into nothing, a table has its own values. -/
theorem bareAt?_eq_change? (table : Table) (way : List String) :
    table.bareAt? way = (table.change? way).getD none := by
  fun_induction change? table way with
  | case1 => rfl
  | case2 table name =>
    rw [bareAt?_singleton]
    cases table.find? name <;> rfl
  | case3 table name next way value plain =>
    rw [bareAt?_cons_cons, inside_of_plain? plain, bareAt?_empty]
    rfl
  | case4 table name next way plain ih => rwa [bareAt?_cons_cons]

/-- A later table decides the bare value at the end of a way, or leaves it. -/
theorem bareAt?_merge (distinct : later.Distinct) :
    (earlier.merge later).bareAt? way = (later.change? way).getD (earlier.bareAt? way) := by
  fun_induction change? later way generalizing earlier with
  | case1 => rfl
  | case2 later name =>
    rw [bareAt?_singleton, bareAt?_singleton, find?_merge earlier later distinct]
    cases later.find? name with
    | none => rfl
    | some value => cases present : earlier.find? name <;> simp [combined, present]
  | case3 later name next way value plain =>
    have merged : (earlier.merge later).plain? name = some value := by
      rw [plain?_eq, bareAt?_singleton, find?_merge earlier later distinct, find?_of_plain? plain]
      rw [plain?, find?_of_plain? plain] at plain
      cases present : earlier.find? name <;> simpa [combined, present] using plain
    rw [bareAt?_cons_cons, inside_of_plain? merged, bareAt?_empty]
    rfl
  | case4 later name next way plain ih =>
    rw [bareAt?_cons_cons, bareAt?_cons_cons]
    obtain absent | ⟨source, inner, found⟩ := find?_of_plain?_eq_none plain
    · have kept : (earlier.merge later).inside name = earlier.inside name := by
        rw [inside, find?_merge earlier later distinct, absent]
        rfl
      have nothing : later.inside name = .empty := inside_eq_empty (by simp [absent])
      rw [kept, nothing, change?_empty]
      rfl
    · obtain ⟨merged, present, ⟨other, own, before, rfl⟩ | ⟨no, rfl⟩⟩ :=
        exists_table_merge earlier distinct found
      · rw [inside_of_find? found] at ih ⊢
        rw [inside_of_find? present, inside_of_find? before]
        exact ih (distinct.find? found)
      · rw [inside_of_find? present, inside_of_find? found, inside_eq_empty no, bareAt?_empty]
        exact bareAt?_eq_change? merged (next :: way)

/-- Where nothing but tables stands on the way, a table decides by its own values only. -/
theorem change?_of_open (leads : table.Open way) :
    table.change? way = (table.bareAt? way).map some := by
  fun_induction Open table way with
  | case1 table => rfl
  | case2 table name => exact change?_singleton table name
  | case3 table name next way absent =>
    rw [bareAt?_cons_cons, change?, plain?, absent, inside_eq_empty (by simp [absent]),
      bareAt?_empty]
    exact change?_empty _
  | case4 table name next way source inner found ih =>
    rw [bareAt?_cons_cons, change?, plain?, found, inside_of_find? found]
    exact ih leads
  | case5 => exact leads.elim

/-- Where nothing but tables stands on the way in the later table, the later table counts if it has
a value at the end of it, and else the earlier one. -/
theorem textAt?_merge (distinct : later.Distinct) (leads : later.Open way) :
    (earlier.merge later).textAt? way = (later.textAt? way).or (earlier.textAt? way) := by
  rw [textAt?_eq, textAt?_eq, textAt?_eq, bareAt?_merge distinct, change?_of_open leads]
  cases later.bareAt? way <;> rfl

/-- Tables with the same bare values on a way change the same at its end. -/
theorem change?_congr
    (same : ∀ front, front ≠ [] → front <+: way → table.bareAt? front = other.bareAt? front) :
    table.change? way = other.change? way := by
  have first {name : String} {rest : List String} (is : way = name :: rest) :
      table.bareAt? [name] = other.bareAt? [name] :=
    same [name] (List.cons_ne_nil _ _) (by simp [is])
  fun_induction change? table way generalizing other with
  | case1 => rfl
  | case2 table name =>
    rw [change?_singleton, ← first rfl, bareAt?_singleton, Option.map_map]
    rfl
  | case3 table name next way value plain =>
    rw [plain?_eq, first rfl, ← plain?_eq] at plain
    rw [change?, plain]
  | case4 table name next way plain ih =>
    rw [plain?_eq, first rfl, ← plain?_eq] at plain
    rw [change?, plain]
    have inner : ∀ front, front ≠ [] → front <+: next :: way →
        (table.inside name).bareAt? front = (other.inside name).bareAt? front := by
      intro front deep before
      obtain ⟨second, front, rfl⟩ := List.exists_cons_of_ne_nil deep
      rw [← bareAt?_cons_cons, ← bareAt?_cons_cons]
      exact same _ (List.cons_ne_nil _ _) (List.cons_prefix_cons.mpr ⟨rfl, before⟩)
    exact ih inner fun is => inner _ (List.cons_ne_nil _ _) (by simp [is])

/-- The bare value at the end of a way in merged tables depends on those on the way in the later
table and on the one at the end in the earlier table. -/
theorem bareAt?_merge_congr (distinct : later.Distinct) (distinct' : later'.Distinct)
    (before : earlier.bareAt? way = earlier'.bareAt? way)
    (same : ∀ front, front ≠ [] → front <+: way → later.bareAt? front = later'.bareAt? front) :
    (earlier.merge later).bareAt? way = (earlier'.merge later').bareAt? way := by
  rw [bareAt?_merge distinct, bareAt?_merge distinct', change?_congr same, before]

/-- Simple values come from one of the merged tables. -/
theorem plain?_merge (distinct : later.Distinct) (first : earlier.plain? name = none)
    (second : later.plain? name = none) : (earlier.merge later).plain? name = none := by
  rw [plain?_eq, bareAt?_merge distinct, change?]
  obtain absent | ⟨source, inner, found⟩ := find?_of_plain?_eq_none second
  · rw [absent, Option.map_none, Option.getD_none, ← plain?_eq, first]
  · rw [found]
    rfl

/-! ## Many tables -/

/-- Of many tables merged one after the other, the last one that decides what is at the end of a way
counts. -/
theorem bareAt?_foldl_merge {tables : List Table} (distinct : ∀ table ∈ tables, table.Distinct)
    (table : Table) :
    (tables.foldl Table.merge table).bareAt? way =
      ((tables.filterMap (change? · way)).getLast?).getD (table.bareAt? way) := by
  induction tables generalizing table with
  | nil => rfl
  | cons first tables ih =>
    obtain ⟨own, others⟩ := List.forall_mem_cons.mp distinct
    rw [List.foldl_cons, ih others, bareAt?_merge own, List.filterMap_cons]
    cases first.change? way with
    | none => rfl
    | some value =>
      rw [List.getLast?_cons]
      cases (tables.filterMap (change? · way)).getLast? <;> rfl

/-- Where nothing but tables stands on a way in each of them, the last table with a value at its end
counts. -/
theorem textAt?_foldl_merge {tables : List Table}
    (all : ∀ table ∈ tables, table.Distinct ∧ table.Open way) (table : Table) :
    (tables.foldl Table.merge table).textAt? way =
      ((tables.filterMap fun table => table.textAt? way).getLast?).or (table.textAt? way) := by
  have changes : tables.filterMap (change? · way) =
      (tables.filterMap (bareAt? · way)).map some := by
    rw [List.map_filterMap]
    exact List.filterMap_congr fun table mem => change?_of_open (all table mem).2
  have texts : (tables.filterMap fun table => table.textAt? way) =
      (tables.filterMap (bareAt? · way)).map Value.text? := by
    rw [List.map_filterMap]
    exact List.filterMap_congr fun table _ => table.textAt?_eq way
  rw [textAt?_eq, bareAt?_foldl_merge fun table mem => (all table mem).1, changes, texts,
    textAt?_eq, List.getLast?_map, List.getLast?_map]
  cases (tables.filterMap (bareAt? · way)).getLast? <;> rfl

theorem distinct_foldl_merge {tables : List Table} (distinct : ∀ table ∈ tables, table.Distinct)
    (first : table.Distinct) : (tables.foldl Table.merge table).Distinct :=
  List.foldlRecOn tables Table.merge first fun merged own next mem =>
    distinct_merge merged next own (distinct next mem)

/-- A way that each of many tables leaves open stays open when they are merged into a first one. -/
theorem open_foldl_merge {tables : List Table}
    (all : ∀ table ∈ tables, table.Distinct ∧ table.Open way) (first : table.Open way) :
    (tables.foldl Table.merge table).Open way :=
  List.foldlRecOn (motive := fun merged => merged.Open way) tables Table.merge first
    fun _ leads next mem => leads.merge (all next mem).1 (all next mem).2

/-! ## A single value -/

end Table

/-- A way of names neither goes on from the end of another one nor ends on it. -/
def Aside (key way : List String) : Prop := (key <+: way → key = way) ∧ (way <+: key → key = way)

namespace Table

/-- Nothing but tables stands on the way to a value, nor on one that does not go through it. -/
theorem open_nest (source : Source) (value : Value) (aside : key <+: way → key = way) :
    (nest source value key).Open way := by
  fun_induction nest source value key generalizing way with
  | case1 =>
    rw [← aside List.nil_prefix]
    trivial
  | case2 name =>
    obtain - | ⟨other, - | ⟨next, way⟩⟩ := way
    · trivial
    · trivial
    · have ne : name ≠ other := fun same => by simpa using aside (by simp [same])
      rw [Open, find?, if_neg ne, find?]
      trivial
  | case3 name names more ih =>
    obtain - | ⟨other, - | ⟨next, way⟩⟩ := way
    · trivial
    · trivial
    · by_cases same : name = other
      · subst same
        rw [Open, find?, if_pos rfl]
        exact ih fun before => (List.cons.inj (aside (List.cons_prefix_cons.mpr ⟨rfl, before⟩))).2
      · rw [Open, find?, if_neg same, find?]
        trivial

/-- A table with a single value changes nothing off the way to it. -/
theorem change?_nest_of_aside (source : Source) (value : Value) (before : ¬ key <+: way)
    (behind : ¬ way <+: key) : (nest source value key).change? way = none := by
  fun_induction nest source value key generalizing way with
  | case1 => exact absurd List.nil_prefix before
  | case2 name =>
    obtain - | ⟨other, way⟩ := way
    · exact absurd List.nil_prefix behind
    · have ne : name ≠ other := by
        rintro rfl
        exact before (by simp)
      cases way <;> simp [change?, plain?, inside, find?, ne, change?_empty]
  | case3 name names more ih =>
    obtain - | ⟨other, - | ⟨next, way⟩⟩ := way
    · exact absurd List.nil_prefix behind
    · have ne : name ≠ other := by
        rintro rfl
        exact behind (by simp)
      simp [change?, find?, ne]
    · by_cases same : name = other
      · subst same
        simp only [change?, plain?, inside, find?, if_true, Option.bind_some, Value.plain?]
        exact ih (fun own => before (List.cons_prefix_cons.mpr ⟨rfl, own⟩))
          fun own => behind (List.cons_prefix_cons.mpr ⟨rfl, own⟩)
      · simp [change?, plain?, inside, find?, same, change?_empty]

/-- On the way to its value stand tables. -/
theorem change?_nest_of_prefix (source : Source) (value : Value) (deep : way ≠ [])
    (behind : way <+: key) (ne : way ≠ key) :
    (nest source value key).change? way = some (some (.table source .empty)) := by
  fun_induction nest source value key generalizing way with
  | case1 => exact absurd (List.prefix_nil.mp behind) deep
  | case2 name =>
    obtain rfl | ⟨rest, rfl, last⟩ := List.prefix_cons_iff.mp behind
    · exact absurd rfl deep
    · exact absurd (by rw [List.prefix_nil.mp last]) ne
  | case3 name names more ih =>
    obtain rfl | ⟨rest, rfl, last⟩ := List.prefix_cons_iff.mp behind
    · exact absurd rfl deep
    · cases rest with
      | nil => simp [change?, find?, Value.bare]
      | cons next rest =>
        simp only [change?, plain?, inside, find?, if_true, Option.bind_some, Value.plain?]
        exact ih (List.cons_ne_nil _ _) last fun same => ne (by rw [same])

/-- At the end of the way is the value. -/
theorem bareAt?_nest_self (source : Source) (value : Value) (deep : key ≠ []) :
    (nest source value key).bareAt? key = some value.bare := by
  fun_induction nest source value key with
  | case1 => exact absurd rfl deep
  | case2 name => simp [bareAt?_singleton, find?]
  | case3 name names more ih =>
    obtain ⟨next, names, rfl⟩ := List.exists_cons_of_ne_nil more
    rw [bareAt?_cons_cons, inside, find?, if_pos rfl]
    exact ih (List.cons_ne_nil _ _)

/-- The one value of such a table is at the end of its way. -/
theorem textAt?_nest (source : Source) (value : Value) (deep : way ≠ []) (aside : Aside key way) :
    (nest source value key).textAt? way = if key = way then some value.text? else none := by
  rw [textAt?_eq]
  split
  · next same =>
    subst same
    rw [bareAt?_nest_self source value deep, Option.map_some, Value.text?_bare]
  · next ne =>
    rw [bareAt?_eq_change?, change?_nest_of_aside source value (mt aside.1 ne) (mt aside.2 ne)]
    rfl

end Table

end BuildRunner.Settings
