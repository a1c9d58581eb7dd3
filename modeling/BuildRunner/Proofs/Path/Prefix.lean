import BuildRunner.Proofs.Path.Join

/-!
# A path as seen from one above it

A path is seen from a base whose components it starts with. What is seen is written as a path of its
own, without the segments that name nothing at its ends, and joined to the base it has the
components of the path again. So whoever follows the seen path from the base comes to where the path
leads.
-/

namespace BuildRunner.Path

open Component

variable {p q base : Path} {name : RawText} {lead : Option Component} {body segments : List RawText}

/-! ## Segments that name nothing -/

theorem bodyComponents_dropWhile (segments : List RawText) :
    bodyComponents (segments.dropWhile isFiller) = bodyComponents segments := by
  induction segments with
  | nil => rfl
  | cons segment segments ih =>
    rw [List.dropWhile_cons]
    split
    · next filler =>
      rw [ih, bodyComponents, bodyComponents, List.filter_cons_of_neg (by simp [filler])]
    · rfl

/-- What is dropped at the end is made of fillers. -/
theorem exists_eq_dropFillers_append (segments : List RawText) :
    ∃ fillers, segments = dropFillers segments ++ fillers ∧ ∀ s ∈ fillers, isFiller s = true := by
  refine ⟨(segments.reverse.takeWhile isFiller).reverse, ?_, fun s mem => ?_⟩
  · rw [dropFillers, ← List.reverse_append, List.takeWhile_append_dropWhile, List.reverse_reverse]
  · exact List.all_eq_true.mp List.all_takeWhile s (List.mem_reverse.mp mem)

theorem bodyComponents_of_fillers {fillers : List RawText}
    (all : ∀ s ∈ fillers, isFiller s = true) : bodyComponents fillers = [] := by
  have none : fillers.filter (fun s => !isFiller s) = [] :=
    List.filter_eq_nil_iff.mpr fun s mem => by simp [all s mem]
  rw [bodyComponents, none, List.map_nil]

theorem bodyComponents_dropFillers (segments : List RawText) :
    bodyComponents (dropFillers segments) = bodyComponents segments := by
  obtain ⟨fillers, split, all⟩ := exists_eq_dropFillers_append segments
  have whole : bodyComponents segments = bodyComponents (dropFillers segments ++ fillers) :=
    congrArg bodyComponents split
  rw [whole, bodyComponents_append, bodyComponents_of_fillers all, List.append_nil]

/-- A segment that names something is not dropped at the end. -/
theorem dropFillers_of_getLast? (last : segments.getLast? = some name)
    (named : isFiller name = false) : dropFillers segments = segments := by
  obtain ⟨front, rfl⟩ := List.getLast?_eq_some_iff.mp last
  rw [dropFillers, List.reverse_concat, List.dropWhile_cons_of_neg (by simp [named]),
    ← List.reverse_concat, List.reverse_reverse]

/-! ## Paths put together again -/

/-- The segments of a text in which slashes stand between segments. -/
theorem pieces_intercalate (more : body ≠ []) (plain : ∀ s ∈ body, slash ∉ s.bytes) :
    (RawText.intercalate "/" body).pieces slash = body := by
  induction body with
  | nil => exact absurd rfl more
  | cons segment rest ih =>
    obtain ⟨own, others⟩ := List.forall_mem_cons.mp plain
    cases rest with
    | nil => rw [RawText.intercalate_singleton, pieces_of_not_mem own]
    | cons next rest =>
      rw [RawText.intercalate_cons_of_ne_nil (List.cons_ne_nil _ _), pieces_append_slash,
        pieces_of_not_mem own, ih (List.cons_ne_nil _ _) others]
      rfl

/-- The parts of a path can be read off what is put together from them. Without a lead, the first
segment must be one that names something. -/
theorem ofParts_segments (kind : lead = none ∨ lead = some root ∨ lead = some here)
    (plain : ∀ s ∈ body, slash ∉ s.bytes)
    (first : lead = none → ∀ s, body.head? = some s → isFiller s = false) :
    (ofParts lead body).lead = lead ∧
      bodyComponents (ofParts lead body).segments = bodyComponents body ∧
      (body ≠ [] → body <:+ (ofParts lead body).segments) := by
  by_cases more : body = []
  · subst more
    rcases kind with rfl | rfl | rfl <;> exact ⟨by decide, by decide, fun some => absurd rfl some⟩
  have inner := pieces_intercalate more plain
  rcases kind with rfl | rfl | rfl
  · have own : (ofParts none body).segments = body := inner
    obtain ⟨segment, rest, rfl⟩ := List.exists_cons_of_ne_nil more
    have named := first rfl segment rfl
    have absolute : (ofParts none (segment :: rest)).isAbsolute = false := by
      refine Bool.eq_false_iff.mpr fun absolute => ?_
      have head := head?_segments_of_isAbsolute absolute
      rw [own, List.head?_cons] at head
      cases head
      cases named
    have relative : segment ≠ "." := by
      rintro rfl
      cases named
    refine ⟨?_, by rw [own], fun _ => by simp only [own, List.suffix_refl]⟩
    simp [Path.lead, absolute, own, relative]
  · have own : (ofParts (some root) body).segments = ("" : RawText) :: body := by
      have slash := pieces_append_slash "" (RawText.intercalate "/" body)
      rw [inner] at slash
      exact slash
    refine ⟨?_, by rw [own]; rfl, fun _ => by rw [own]; exact List.suffix_cons _ _⟩
    simp [Path.lead, ofParts, isAbsolute]
  · have text : (ofParts (some here) body) = ⟨"." ++ "/" ++ RawText.intercalate "/" body⟩ := by
      simp [ofParts, more, Component.segment]
    have own : (ofParts (some here) body).segments = ("." : RawText) :: body := by
      rw [text, Path.segments, pieces_append_slash, inner]
      rfl
    refine ⟨?_, by rw [own]; rfl, fun _ => by rw [own]; exact List.suffix_cons _ _⟩
    have absolute : (ofParts (some here) body).isAbsolute = false := by
      rw [text]
      rfl
    simp [Path.lead, absolute, own]

/-! ## What is left behind a base -/

/-- What is left when components are taken from segments stands behind segments of these
components. -/
theorem stripBody_eq_some {components : List Component} {rest : List RawText}
    (h : stripBody segments components = some rest) :
    rest <:+ segments ∧ bodyComponents segments = components ++ bodyComponents rest := by
  fun_induction stripBody segments components with
  | case1 segments =>
    cases h
    exact ⟨List.suffix_refl _, rfl⟩
  | case2 => cases h
  | case3 segment segments component components filler ih =>
    obtain ⟨suffix, own⟩ := ih h
    refine ⟨suffix.trans (List.suffix_cons _ _), ?_⟩
    rw [← own, bodyComponents, bodyComponents, List.filter_cons_of_neg (by simp [filler])]
  | case4 segment segments components named ih =>
    obtain ⟨suffix, own⟩ := ih h
    refine ⟨suffix.trans (List.suffix_cons _ _), ?_⟩
    rw [List.cons_append, ← own, bodyComponents, bodyComponents,
      List.filter_cons_of_pos (by simp [named]), List.map_cons]
  | case5 => cases h

/-- Components can be taken from segments that start with them. -/
theorem isSome_stripBody {components : List Component}
    (h : components <+: bodyComponents segments) :
    (stripBody segments components).isSome = true := by
  fun_induction stripBody segments components with
  | case1 => rfl
  | case2 => simp [bodyComponents] at h
  | case3 segment segments component components filler ih =>
    rw [bodyComponents, List.filter_cons_of_neg (by simp [filler])] at h
    exact ih h
  | case4 segment segments components named ih =>
    rw [bodyComponents, List.filter_cons_of_pos (by simp [named]), List.map_cons,
      List.cons_prefix_cons] at h
    exact ih h.2
  | case5 segment segments component components named differs =>
    rw [bodyComponents, List.filter_cons_of_pos (by simp [named]), List.map_cons,
      List.cons_prefix_cons] at h
    exact absurd h.1.symm differs

/-- A path whose first segment is empty is empty or starts with a slash. -/
theorem raw_eq_empty_or_isAbsolute (head : p.segments.head? = some ("" : RawText)) :
    p.raw = "" ∨ p.isAbsolute = true := by
  cases bytes : p.raw.bytes with
  | nil => exact .inl (RawText.bytes_eq_nil_iff.mp bytes)
  | cons byte rest =>
    by_cases same : byte = slash
    · subst same
      exact .inr (by simp [isAbsolute, bytes])
    · -- the first segment then starts with this byte
      obtain ⟨piece, pieces, split⟩ :=
        List.exists_cons_of_ne_nil (Text.splitAtEach_ne_nil slash rest)
      rw [Path.segments, RawText.pieces, bytes, Text.splitAtEach_cons_of_ne same split] at head
      cases head

/-- Only the empty path starts with a segment that names nothing and is no lead. -/
theorem raw_eq_empty_of_filler {first : RawText} (lead : p.lead = none)
    (head : p.segments.head? = some first) (filler : isFiller first = true) : p.raw = "" := by
  rw [Path.lead] at lead
  split at lead
  · cases lead
  · next relative =>
    split at lead
    · cases lead
    · next notHere =>
      have empty : first = "" := by
        simp only [isFiller, Bool.or_eq_true, decide_eq_true_eq] at filler
        exact filler.resolve_right fun here => notHere (here ▸ head)
      exact (raw_eq_empty_or_isAbsolute (empty ▸ head)).resolve_right relative

/-- Only the empty path has no components. -/
theorem raw_eq_empty_of_components (h : p.components = []) : p.raw = "" := by
  obtain ⟨noLead, noBody⟩ := List.append_eq_nil_iff.mp (p.components_eq ▸ h)
  obtain ⟨first, rest, segments⟩ := List.exists_cons_of_ne_nil p.segments_ne_nil
  have filler : isFiller first = true := by
    cases named : isFiller first with
    | true => rfl
    | false => simp [segments, bodyComponents, named] at noBody
  refine raw_eq_empty_of_filler (Option.toList_eq_nil_iff.mp noLead) ?_ filler
  rw [segments, List.head?_cons]

/-- What is seen of a path is all of it from an empty base, and from any other base what stands
behind the components of the base. -/
theorem stripPrefix?_eq_some (h : p.stripPrefix? base = some q) :
    (base.raw = "" ∧ q = ofParts p.lead (dropFillers p.body)) ∨
      (base.raw ≠ "" ∧ ∃ rest, rest <:+ p.body ∧
        p.components = base.components ++ bodyComponents rest ∧
          q = ofParts none (dropFillers (rest.dropWhile isFiller))) := by
  have nonempty {component : Component} {components : List Component}
      (some : base.components = component :: components) : base.raw ≠ "" := by
    intro empty
    have own : base = ⟨""⟩ := by
      cases base
      exact congrArg _ empty
    rw [own] at some
    cases some
  unfold stripPrefix? at h
  cases components : base.components with
  | nil =>
    rw [components] at h
    exact .inl ⟨raw_eq_empty_of_components components, (Option.some.inj h).symm⟩
  | cons component others =>
    refine .inr ⟨nonempty components, ?_⟩
    cases lead : p.lead with
    | none =>
      rw [components, lead] at h
      obtain ⟨rest, stripped, rfl⟩ := Option.map_eq_some_iff.mp h
      obtain ⟨suffix, own⟩ := stripBody_eq_some stripped
      exact ⟨rest, suffix, by rw [Path.components, lead]; exact own, rfl⟩
    | some front =>
      rw [components, lead] at h
      dsimp only at h
      split at h
      · next same =>
        obtain ⟨rest, stripped, rfl⟩ := Option.map_eq_some_iff.mp h
        obtain ⟨suffix, own⟩ := stripBody_eq_some stripped
        exact ⟨rest, suffix, by rw [Path.components, lead, same, own]; rfl, rfl⟩
      · cases h

/-- A path that starts with the components of a base can be seen from it. -/
theorem isSome_stripPrefix? (h : base.components <+: p.components) :
    (p.stripPrefix? base).isSome = true := by
  unfold stripPrefix?
  cases components : base.components with
  | nil => rfl
  | cons component others =>
    rw [components, Path.components] at h
    cases lead : p.lead with
    | none =>
      rw [lead] at h
      dsimp only
      rw [Option.isSome_map]
      exact isSome_stripBody h
    | some front =>
      rw [lead] at h
      obtain ⟨same, behind⟩ := List.cons_prefix_cons.mp h
      dsimp only
      rw [if_pos same.symm, Option.isSome_map]
      exact isSome_stripBody behind

/-! ## What is left, joined to the base -/

theorem not_mem_of_mem_body {segment : RawText} (h : segment ∈ p.body) : slash ∉ segment.bytes := by
  refine not_mem_of_mem_segments (p := p) ?_
  rw [body] at h
  split at h
  · exact List.mem_of_mem_tail h
  · exact h

theorem mem_of_mem_dropFillers {segment : RawText} (h : segment ∈ dropFillers segments) :
    segment ∈ segments := by
  obtain ⟨fillers, split, _⟩ := exists_eq_dropFillers_append segments
  rw [split]
  exact List.mem_append_left _ h

theorem head?_dropFillers {first : RawText} (h : (dropFillers segments).head? = some first) :
    segments.head? = some first := by
  obtain ⟨fillers, split, _⟩ := exists_eq_dropFillers_append segments
  rw [split, List.head?_append, h, Option.some_or]

/-- Without a lead, a path starts with a segment that names something, or is empty. -/
theorem isFiller_of_head?_body (lead : p.lead = none) {first : RawText}
    (h : (dropFillers p.body).head? = some first) : isFiller first = false := by
  cases filler : isFiller first with
  | false => rfl
  | true =>
    have whole : p.body = p.segments := by simp [body, lead]
    rw [whole] at h
    have empty := raw_eq_empty_of_filler lead (head?_dropFillers h) filler
    rw [segments, empty] at h
    cases h

/-- Without a lead, a path is relative. -/
theorem isAbsolute_of_lead (h : p.lead = none) : p.isAbsolute = false := by
  rw [Path.lead] at h
  split at h
  · cases h
  · next relative => exact Bool.eq_false_iff.mpr relative

/-- What is left behind a base is a path without a lead, of the segments that are left. -/
theorem ofParts_left {rest : List RawText} (suffix : rest <:+ p.body) :
    let q := ofParts none (dropFillers (rest.dropWhile isFiller))
    q.lead = none ∧ bodyComponents q.segments = bodyComponents rest ∧
      (bodyComponents rest ≠ [] → dropFillers (rest.dropWhile isFiller) <:+ q.segments) := by
  intro q
  have plain : ∀ s ∈ dropFillers (rest.dropWhile isFiller), slash ∉ s.bytes := by
    intro s mem
    have dropped := (List.dropWhile_suffix _).subset (mem_of_mem_dropFillers mem)
    exact not_mem_of_mem_body (suffix.subset dropped)
  have first : ∀ s, (dropFillers (rest.dropWhile isFiller)).head? = some s →
      isFiller s = false := by
    intro s head
    have named := List.head?_dropWhile_not isFiller rest
    rw [head?_dropFillers head] at named
    exact named
  obtain ⟨lead, body, behind⟩ := ofParts_segments (.inl rfl) plain fun _ => first
  have own : bodyComponents (dropFillers (rest.dropWhile isFiller)) = bodyComponents rest := by
    rw [bodyComponents_dropFillers, bodyComponents_dropWhile]
  refine ⟨lead, body.trans own, fun more => behind fun none => ?_⟩
  rw [none] at own
  exact more own.symm

/-- What is seen from a base has, behind the base, the components of the path again. -/
theorem components_join_stripPrefix? (h : p.stripPrefix? base = some q) :
    (base.join q).components = p.components := by
  rcases stripPrefix?_eq_some h with ⟨empty, rfl⟩ | ⟨nonempty, rest, suffix, own, rfl⟩
  · obtain ⟨lead, body, _⟩ := ofParts_segments p.lead_cases
      (fun s mem => not_mem_of_mem_body (mem_of_mem_dropFillers mem))
      fun none s head => isFiller_of_head?_body none head
    rw [join_of_empty empty, components_eq, lead, body, bodyComponents_dropFillers, components]
  · obtain ⟨lead, body, _⟩ := ofParts_left suffix
    rw [components_join_relative (isAbsolute_of_lead lead) nonempty, body, own]

/-- What is seen from a base has the components that are left when those of the base are taken off
the path. -/
theorem components_stripPrefix? (h : p.stripPrefix? base = some q) :
    p.components = base.components ++ q.components := by
  have joined := components_join_stripPrefix? h
  rcases stripPrefix?_eq_some h with ⟨empty, _⟩ | ⟨nonempty, rest, suffix, own, rfl⟩
  · have none : base = ⟨""⟩ := congrArg Path.mk empty
    rw [join_of_empty empty] at joined
    rw [← joined, none]
    rfl
  · obtain ⟨lead, body, _⟩ := ofParts_left suffix
    rw [own, components_eq (ofParts _ _), lead, body]
    rfl

theorem getLast?_of_suffix {a b : List RawText} (suffix : a <:+ b) (more : a ≠ []) :
    b.getLast? = a.getLast? := by
  obtain ⟨front, rfl⟩ := suffix
  rw [List.getLast?_append, List.getLast?_eq_some_getLast more, Option.some_or]

/-- A lead stands in a segment that names nothing else. -/
theorem isFiller_of_lead (led : p.lead.isSome = true) {first : RawText}
    (head : p.segments.head? = some first) : isFiller first = true := by
  rw [Path.lead] at led
  split at led
  · next absolute =>
    cases head.symm.trans (head?_segments_of_isAbsolute absolute)
    rfl
  · split at led
    · next here =>
      cases head.symm.trans here
      rfl
    · cases led

/-- A last segment that names something stands behind the lead. -/
theorem getLast?_body (last : p.segments.getLast? = some name) (named : isFiller name = false) :
    p.body.getLast? = some name := by
  rw [body]
  split
  · next led =>
    obtain ⟨first, rest, segments⟩ := List.exists_cons_of_ne_nil p.segments_ne_nil
    rw [segments] at last ⊢
    cases rest with
    | nil =>
      have own : first = name := Option.some.inj last
      have filler := isFiller_of_lead led (by rw [segments, List.head?_cons])
      rw [own, named] at filler
      cases filler
    | cons next rest => rwa [List.getLast?_cons_cons] at last
  · exact last

/-- What is seen from a base ends as the path does, unless nothing is left. -/
theorem getLast?_join_stripPrefix? (h : p.stripPrefix? base = some q)
    (last : p.segments.getLast? = some name) (named : isFiller name = false)
    (more : p.components ≠ base.components) : (base.join q).segments.getLast? = some name := by
  have ends := getLast?_body last named
  rcases stripPrefix?_eq_some h with ⟨empty, rfl⟩ | ⟨nonempty, rest, suffix, own, rfl⟩
  · obtain ⟨_, _, behind⟩ := ofParts_segments p.lead_cases
      (fun s mem => not_mem_of_mem_body (mem_of_mem_dropFillers mem))
      fun none s head => isFiller_of_head?_body none head
    rw [dropFillers_of_getLast? ends named] at behind ⊢
    have body : p.body ≠ [] := fun none => by simp [none] at ends
    rw [join_of_empty empty, getLast?_of_suffix (behind body) body, ends]
  · obtain ⟨lead, _, behind⟩ := ofParts_left suffix
    have relative := isAbsolute_of_lead lead
    have left : bodyComponents rest ≠ [] := fun none => more (by rw [own, none, List.append_nil])
    have kept : rest.dropWhile isFiller ≠ [] := fun none =>
      left (by rw [← bodyComponents_dropWhile, none]; rfl)
    have ends' : (rest.dropWhile isFiller).getLast? = some name := by
      rw [← getLast?_of_suffix ((List.dropWhile_suffix _).trans suffix) kept, ends]
    rw [dropFillers_of_getLast? ends' named] at behind relative ⊢
    obtain ⟨_, front, _, _, joined⟩ := segments_join_relative relative nonempty
    rw [joined, getLast?_of_suffix ((behind left).trans (List.suffix_append _ _)) kept, ends']

end BuildRunner.Path
