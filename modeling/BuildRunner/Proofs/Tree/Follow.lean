import BuildRunner.Proofs.Tree.Frame

/-!
# Steps in a larger tree, and steps behind steps

Following a path looks at faces only. So steps lead to the same, or are refused alike, in a tree and
in every tree that this one is part of, unless something on the way is missing in the smaller one.
Where they lead somewhere in the smaller one, they lead to the same place in the larger.

Steps can be taken in two parts: if the first part leads to a directory, the second goes on from
there, with the links that are left. The last step of the first part is then on the way, and a link
there is followed. Conversely, steps that lead somewhere have led to a directory before the last
ones of them.
-/

namespace BuildRunner.Directory

variable {d d' : Directory} {location : Location}

/-! ## One link after the other -/

section Resolve

variable {follow : Bool} {links : Nat} {here base : Location} {steps rest : List Step}
  {target : RawText}

theorem resolve_of_arrived (arrived : d.advance follow here steps = .arrived location) :
    d.resolve follow links here steps = .ok location := by
  rw [resolve, arrived]

theorem resolve_of_link (met : d.advance follow here steps = .link base target rest) :
    d.resolve follow (links + 1) here steps =
      d.resolve follow links (if (Path.mk target).isAbsolute then [] else base)
        ((Path.mk target).steps ++ rest) := by
  rw [resolve, met]

/-- Steps lead somewhere before any link, or the first link is followed and leads there. -/
theorem resolve_eq_ok_cases (reached : d.resolve follow links here steps = .ok location) :
    d.advance follow here steps = .arrived location ∨
      ∃ fewer base target rest, links = fewer + 1 ∧
        d.advance follow here steps = .link base target rest ∧
        d.resolve follow fewer (if (Path.mk target).isAbsolute then [] else base)
          ((Path.mk target).steps ++ rest) = .ok location := by
  cases met : d.advance follow here steps with
  | arrived there =>
    rw [resolve_of_arrived met] at reached
    cases reached
    exact .inl rfl
  | refused fault =>
    rw [resolve, met] at reached
    cases reached
  | link base target rest =>
    cases links with
    | zero =>
      rw [resolve, met] at reached
      cases reached
    | succ links =>
      rw [resolve_of_link met] at reached
      exact .inr ⟨links, base, target, rest, rfl, rfl, reached⟩

end Resolve

/-! ## A larger tree -/

/-- Steps go the same way in a larger tree, unless something is missing in the smaller one. -/
theorem PartOf.advance_cases (h : d.PartOf d') (follow : Bool) (here : Location)
    (steps : List Step) :
    d.advance follow here steps = d'.advance follow here steps ∨
      d.advance follow here steps = .refused .notFound := by
  fun_induction advance d follow here steps with
  | case1 here => exact .inl rfl
  | case2 here rest ih => exact ih
  | case3 here rest ih => exact ih
  | case4 here name rest long => simp [advance, long]
  | case5 here name rest short there missing => exact .inr rfl
  | case6 here name rest short there sub found ih =>
    obtain ⟨sub', found'⟩ := h.get?_directory found
    simpa only [advance, short, there, found', if_false] using ih
  | case7 here name short there content executable found =>
    have found' := h.get?_leaf found (by simp [Node.kind])
    simp [advance, short, there, found']
  | case8 here name rest short there content executable found more =>
    have found' := h.get?_leaf found (by simp [Node.kind])
    simp [advance, short, there, found', more]
  | case9 here name rest short there target found unfollowed =>
    have found' := h.get?_leaf found (by simp [Node.kind])
    simp only [advance, short, there, found', if_false, unfollowed, if_true, true_or]
  | case10 here name rest short there target found followed =>
    have found' := h.get?_leaf found (by simp [Node.kind])
    simp only [advance, short, there, found', if_false, followed, Bool.false_eq_true, true_or]

/-- Steps lead to the same in a larger tree, unless something is missing in the smaller one. -/
theorem PartOf.resolve_cases (h : d.PartOf d') (follow : Bool) (links : Nat) (here : Location)
    (steps : List Step) :
    d.resolve follow links here steps = d'.resolve follow links here steps ∨
      d.resolve follow links here steps = .error .notFound := by
  induction links generalizing here steps with
  | zero =>
    rcases h.advance_cases follow here steps with same | missing
    · exact .inl (by rw [resolve, resolve, same])
    · exact .inr (by rw [resolve, missing])
  | succ links ih =>
    rcases h.advance_cases follow here steps with same | missing
    · rw [resolve, resolve, same]
      cases d'.advance follow here steps with
      | arrived location => exact .inl rfl
      | refused fault => exact .inl rfl
      | link base target rest => exact ih _ _
    · exact .inr (by rw [resolve, missing])

/-! ## Steps behind steps -/

/-- Further steps are taken from where the first ones arrive, which must be a directory. A link in
the last of the first ones is on the way and therefore followed. -/
theorem advance_append {follow : Bool} {here : Location} {front rest : List Step}
    (start : d.isDirectoryAt here = true) (more : rest ≠ []) :
    d.advance follow here (front ++ rest) =
      match d.advance true here front with
      | .arrived middle =>
        if d.isDirectoryAt middle then d.advance follow middle rest else .refused .notDirectory
      | .link base target left => .link base target (left ++ rest)
      | .refused fault => .refused fault := by
  fun_induction advance d true here front with
  | case1 here => simp only [start, if_true, List.nil_append]
  | case2 here front ih => rw [List.cons_append, advance, ih start]
  | case3 here front ih => rw [List.cons_append, advance, ih (isDirectoryAt_dropLast start)]
  | case4 here name front long => simp only [List.cons_append, advance, long, if_true]
  | case5 here name front short there missing =>
    simp only [List.cons_append, advance, short, there, missing, if_false]
  | case6 here name front short there sub found ih =>
    simp only [List.cons_append, advance, short, there, found, if_false]
    exact ih (isDirectoryAt_iff.mpr ⟨sub, found⟩)
  | case7 here name short there content executable found =>
    have leaf : d.isDirectoryAt there = false := by simp [isDirectoryAt, found, Node.kind]
    simp only [List.cons_append, List.nil_append, advance, short, there, found, if_false, more,
      leaf, Bool.false_eq_true]
  | case8 here name front short there content executable found further =>
    simp only [List.cons_append, advance, short, there, found, if_false, List.append_eq_nil_iff,
      further, false_and]
  | case9 here name front short there target found unfollowed => simp at unfollowed
  | case10 here name front short there target found followed =>
    simp [advance, short, there, found, more]

/-- Steps that lead to a directory can be continued from there, with the links that are left. -/
theorem resolve_append_of_eq_ok {links : Nat} {here middle : Location} {front : List Step}
    (start : d.isDirectoryAt here = true) (reached : d.resolve true links here front = .ok middle)
    (stands : d.isDirectoryAt middle = true) :
    ∃ fewer, ∀ follow rest, rest ≠ [] →
      d.resolve follow links here (front ++ rest) = d.resolve follow fewer middle rest := by
  rcases resolve_eq_ok_cases reached with arrived | ⟨links, base, target, left, rfl, met, further⟩
  · refine ⟨links, fun follow rest more => ?_⟩
    have same : d.advance follow here (front ++ rest) = d.advance follow middle rest := by
      rw [advance_append start more, arrived]
      exact if_pos stands
    rw [resolve, resolve, same]
  · obtain ⟨origin, _⟩ := of_advance_eq_link start met
    obtain ⟨fewer, continued⟩ :=
      resolve_append_of_eq_ok (isDirectoryAt_origin origin _) further stands
    refine ⟨fewer, fun follow rest more => ?_⟩
    have met' : d.advance follow here (front ++ rest) = .link base target (left ++ rest) := by
      rw [advance_append start more, met]
    rw [resolve_of_link met', ← List.append_assoc, continued follow rest more]
termination_by links

/-- When steps lead somewhere, the first ones of them lead to a directory. -/
theorem exists_of_resolve_append {follow : Bool} {links : Nat} {here : Location}
    {front rest : List Step} (start : d.isDirectoryAt here = true) (more : rest ≠ [])
    (reached : d.resolve follow links here (front ++ rest) = .ok location) :
    ∃ middle, d.resolve true links here front = .ok middle ∧ d.isDirectoryAt middle = true := by
  have joined : d.advance follow here (front ++ rest) = _ := advance_append start more
  cases first : d.advance true here front with
  | arrived middle =>
    by_cases stands : d.isDirectoryAt middle = true
    · exact ⟨middle, resolve_of_arrived first, stands⟩
    · simp only [first, stands] at joined
      rw [resolve, joined] at reached
      cases reached
  | refused fault =>
    simp only [first] at joined
    rw [resolve, joined] at reached
    cases reached
  | link base target left =>
    simp only [first] at joined
    rcases resolve_eq_ok_cases reached with arrived | ⟨links, _, _, _, rfl, met, further⟩
    · cases joined.symm.trans arrived
    · cases joined.symm.trans met
      obtain ⟨origin, _⟩ := of_advance_eq_link start first
      rw [← List.append_assoc] at further
      obtain ⟨middle, reached, stands⟩ :=
        exists_of_resolve_append (isDirectoryAt_origin origin _) more further
      exact ⟨middle, (resolve_of_link first).trans reached, stands⟩
termination_by links

/-- Steps that lead somewhere lead to a directory first, and from there on with the links that are
left. -/
theorem resolve_append_cases {follow : Bool} {links : Nat} {here : Location}
    {front rest : List Step} (start : d.isDirectoryAt here = true) (more : rest ≠ [])
    (reached : d.resolve follow links here (front ++ rest) = .ok location) :
    ∃ middle fewer, d.resolve true links here front = .ok middle ∧
      d.isDirectoryAt middle = true ∧ d.resolve follow fewer middle rest = .ok location := by
  obtain ⟨middle, up, directory⟩ := exists_of_resolve_append start more reached
  obtain ⟨fewer, continued⟩ := resolve_append_of_eq_ok start up directory
  exact ⟨middle, fewer, up, directory, (continued follow rest more).symm.trans reached⟩

/-- A name that is the only step and is not followed leads to the entry of this name, if it is not
too long for one. -/
theorem eq_of_resolve_name {links : Nat} {here : Location} {name : RawText}
    (reached : d.resolve false links here [.name name] = .ok location) :
    name.bytes.length ≤ nameLimit ∧ location = here ++ [name] := by
  have single : name.bytes.length ≤ nameLimit ∧
        d.advance false here [.name name] = .arrived (here ++ [name]) ∨
      ∃ fault, d.advance false here [.name name] = .refused fault := by
    by_cases long : nameLimit < name.bytes.length
    · exact .inr ⟨.nameTooLong, by simp [advance, long]⟩
    · cases found : d.get? (here ++ [name]) with
      | none => exact .inr ⟨.notFound, by simp [advance, long, found]⟩
      | some node =>
        refine .inl ⟨Nat.le_of_not_lt long, ?_⟩
        cases node <;> simp [advance, long, found]
  rw [resolve] at reached
  rcases single with ⟨short, arrived⟩ | ⟨fault, refused⟩
  · rw [arrived] at reached
    exact ⟨short, (Except.ok.inj reached).symm⟩
  · rw [refused] at reached
    cases reached

end BuildRunner.Directory
