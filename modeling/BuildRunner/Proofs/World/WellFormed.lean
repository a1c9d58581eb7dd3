import BuildRunner.Proofs.Tree.Resolve

/-!
# The operations of the build keep trees well formed

What is said of well-formed trees holds of every tree that the build makes from one by making
directories, writing files and removing what a path leads to. All of this alters a tree at one
location, so there are two things to know. Altering keeps a tree well formed if what it puts there
is, under a name that an entry can have. And a location at which an operation puts something new
ends in such a name, because `place` refuses all others.
-/

namespace BuildRunner

/-! ## Altering a tree -/

namespace Directory

variable {d : Directory} {name : RawText} {node : Node}

/-- Putting a name adds at most this name. -/
theorem mem_names_put {other : RawText} (h : other ∈ (d.put name node).names) :
    other = name ∨ other ∈ d.names := by
  fun_induction put name node d with
  | case1 => exact .inl (List.mem_singleton.mp h)
  | case2 => exact .inr h
  | case3 known old rest ne ih =>
    rcases List.mem_cons.mp h with rfl | mem
    · exact .inr List.mem_cons_self
    · exact (ih mem).imp_right (List.mem_cons_of_mem _)

/-- Erasing a name adds none. -/
theorem mem_names_erase {other : RawText} (h : other ∈ (d.erase name).names) : other ∈ d.names := by
  fun_induction erase name d with
  | case1 => exact h
  | case2 node rest ih => exact List.mem_cons_of_mem _ (ih h)
  | case3 known old rest ne ih =>
    rcases List.mem_cons.mp h with rfl | mem
    · exact List.mem_cons_self
    · exact List.mem_cons_of_mem _ (ih mem)

theorem WellFormed.put (wf : d.WellFormed) (named : IsName name) (inner : node.WellFormed) :
    (d.put name node).WellFormed := by
  fun_induction Directory.put name node d with
  | case1 => exact ⟨named, List.not_mem_nil, inner, trivial⟩
  | case2 old rest => exact ⟨named, wf.2.1, inner, wf.2.2.2⟩
  | case3 known old rest ne ih =>
    obtain ⟨knownNamed, fresh, oldWf, restWf⟩ := wf
    refine ⟨knownNamed, ?_, oldWf, ih restWf⟩
    intro mem
    exact (mem_names_put mem).elim ne fresh

theorem WellFormed.erase (wf : d.WellFormed) (name : RawText) : (d.erase name).WellFormed := by
  fun_induction Directory.erase name d with
  | case1 => exact trivial
  | case2 node rest ih => exact ih wf.2.2.2
  | case3 known old rest ne ih =>
    obtain ⟨knownNamed, fresh, oldWf, restWf⟩ := wf
    exact ⟨knownNamed, fun mem => fresh (mem_names_erase mem), oldWf, ih restWf⟩

/-- A tree altered at a location stays well formed if what is put there is, and has a name. -/
theorem WellFormed.alter {change : Option Node → Option Node} {location : Location}
    (wf : d.WellFormed)
    (new : ∀ old node, change old = some node →
      node.WellFormed ∧ ∀ name, location.getLast? = some name → IsName name) :
    (d.alter change location).WellFormed := by
  fun_induction Directory.alter change d location with
  | case1 d => exact wf
  | case2 d name node put =>
    obtain ⟨inner, named⟩ := new _ _ put
    exact wf.put (named name rfl) inner
  | case3 d name gone => exact wf.erase name
  | case4 d name next below sub found ih =>
    obtain ⟨named, inner⟩ := wf.of_mem (mem_toList_of_find? found)
    exact wf.put named (ih inner new)
  | case5 => exact wf

end Directory

/-! ## Places for new nodes -/

/-- The last segment of a path that is not refused is a name, unless it is a `.` or `..`. -/
theorem Path.isName_of_ofSegment {p : Path} {segment name : RawText}
    (plain : World.badPath p = none) (mem : segment ∈ p.segments) (nonempty : segment ≠ "")
    (step : Step.ofSegment segment = .name name) (short : name.bytes.length ≤ nameLimit) :
    IsName name := by
  obtain ⟨piece, hpiece, rfl⟩ := List.mem_map.mp mem
  have noNul : 0 ∉ p.raw.bytes := by
    intro nul
    simp [World.badPath, nul] at plain
  rw [Step.ofSegment] at step
  split at step
  · cases step
  · next notHere =>
    split at step
    · cases step
    · next notUp =>
      cases step
      have noSlash := Text.not_mem_of_mem_splitAtEach hpiece
      have noNul' (nul : 0 ∈ piece) : False := noNul (Text.subset_of_mem_splitAtEach hpiece nul)
      exact ⟨⟨nonempty, notHere, notUp, noSlash, noNul'⟩, short⟩

namespace World

variable {w w' : World} {p : Path} {location : Location}

/-- A path that has a place ends in a segment that is a name, behind segments that lead to a
directory. -/
theorem segments_of_place {old : Option Node} (h : w.place p = .ok (location, old)) :
    badPath p = none ∧ ∃ before last parent name,
      Path.filled p.segments = before ++ [last] ∧ Step.ofSegment last = .name name ∧
        name.bytes.length ≤ nameLimit ∧
        w.locateSteps p.isAbsolute true (before.map Step.ofSegment) = .ok parent ∧
        w.files.isDirectoryAt parent = true ∧ location = parent ++ [name] ∧
        old = w.files.get? location := by
  unfold place at h
  simp only [bind, Except.bind, pure, Except.pure, throw, throwThe, MonadExceptOf.throw] at h
  split at h
  · cases h
  · next plain =>
    split at h
    · cases h
    · next last ends =>
      obtain ⟨before, segments⟩ := List.getLast?_eq_some_iff.mp ends
      rw [segments, List.dropLast_concat] at h
      split at h
      · cases h
      · next parent located =>
        split at h
        · next directory =>
          split at h
          · next name step =>
            split at h
            · cases h
            · next short =>
              cases h
              exact ⟨Option.eq_none_iff_forall_ne_some.mpr plain, before, last, parent, name,
                segments, step, Nat.le_of_not_lt short, located, directory, rfl, rfl⟩
          · cases h
        · cases h

/-- Where the segments before the last one lead to a directory, the last one is the name of a place
there, unless it is too long for a name. -/
theorem place_of_segments {before : List RawText} {last name : RawText} {parent : Location}
    (plain : badPath p = none) (segments : Path.filled p.segments = before ++ [last])
    (step : Step.ofSegment last = .name name)
    (located : w.locateSteps p.isAbsolute true (before.map Step.ofSegment) = .ok parent)
    (stands : w.files.isDirectoryAt parent = true) :
    w.place p = if nameLimit < name.bytes.length then .error .nameTooLong
      else .ok (parent ++ [name], w.files.get? (parent ++ [name])) := by
  unfold place
  simp only [plain, segments, List.getLast?_concat, List.dropLast_concat, located, stands, step,
    bind, Except.bind, pure, Except.pure, if_true]
  split <;> rfl

/-- A place is a name in a directory. -/
theorem place_eq_ok {old : Option Node} (h : w.place p = .ok (location, old)) :
    old = w.files.get? location ∧ ∃ parent name, location = parent ++ [name] ∧
      w.files.isDirectoryAt parent = true ∧ IsName name := by
  obtain ⟨plain, before, last, parent, name, segments, step, short, _, directory, ends, found⟩ :=
    segments_of_place h
  have mem : last ∈ Path.filled p.segments := by
    rw [segments]
    exact List.mem_concat_self
  obtain ⟨mem, nonempty⟩ := List.mem_filter.mp mem
  exact ⟨found, parent, name, ends, directory,
    Path.isName_of_ofSegment plain mem (of_decide_eq_true nonempty) step short⟩

/-- Where a file is written, something stands, or it is a place with a name, or it is found by
following one more link. -/
theorem target_cases {links : Nat} (h : w.target links p = .ok location) :
    (∃ node, w.files.get? location = some node) ∨
      (∃ parent name, location = parent ++ [name] ∧ IsName name) ∨
        ∃ fewer linked, links = fewer + 1 ∧ w.target fewer linked = .ok location := by
  unfold target at h
  split at h
  · next located =>
    cases h
    exact .inl (exists_of_locate located)
  · obtain ⟨⟨spot, old⟩, hplace, h⟩ := bind_eq_ok.mp h
    obtain ⟨_, parent, name, ends, _, named⟩ := place_eq_ok hplace
    have free : ∃ parent name, spot = parent ++ [name] ∧ IsName name :=
      ⟨parent, name, ends, named⟩
    rcases old with _ | ⟨content, executable⟩ | target | entries
    · exact .inr (.inl (Except.ok.inj h ▸ free))
    · exact .inr (.inl (Except.ok.inj h ▸ free))
    · cases links with
      | zero => cases h
      | succ links => exact .inr (.inr ⟨links, _, rfl, h⟩)
    · exact .inr (.inl (Except.ok.inj h ▸ free))
  · cases h

/-- A file is written where something stands, or at a place with a name. -/
theorem target_eq_ok {links : Nat} (h : w.target links p = .ok location) :
    (∃ node, w.files.get? location = some node) ∨
      ∃ parent name, location = parent ++ [name] ∧ IsName name := by
  induction links generalizing p with
  | zero =>
    rcases target_cases h with stands | free | ⟨fewer, linked, links, _⟩
    · exact .inl stands
    · exact .inr free
    · cases links
  | succ links ih =>
    rcases target_cases h with stands | free | ⟨fewer, linked, links, further⟩
    · exact .inl stands
    · exact .inr free
    · cases links
      exact ih further

/-! ## The operations -/

/-- The tree in which one location is altered is well formed when what is put there is, under a
name. -/
theorem wellFormed_alter {change : Option Node → Option Node} (wf : w.files.WellFormed)
    (named : ∀ old node, change old = some node → node.WellFormed ∧
      ((∃ other, w.files.get? location = some other) ∨
        ∃ parent name, location = parent ++ [name] ∧ IsName name)) :
    (w.withFiles (w.files.alter change location)).files.WellFormed := by
  refine Directory.WellFormed.alter wf fun old node put => ?_
  obtain ⟨inner, stands | ⟨parent, name, rfl, own⟩⟩ := named old node put
  · obtain ⟨other, found⟩ := stands
    exact ⟨inner, fun name last => (wf.get? found).2 name (List.mem_of_getLast? last)⟩
  · refine ⟨inner, fun last hlast => ?_⟩
    rw [List.getLast?_concat] at hlast
    exact Option.some.inj hlast ▸ own

/-- A well-formed node can be put at any place. -/
theorem wellFormed_put {old : Option Node} {node : Node} (wf : w.files.WellFormed)
    (inner : node.WellFormed) (h : w.place p = .ok (location, old)) :
    (w.withFiles (w.files.alter (fun _ => some node) location)).files.WellFormed := by
  obtain ⟨_, parent, name, ends, _, own⟩ := place_eq_ok h
  refine wellFormed_alter wf fun _ other put => ?_
  cases put
  exact ⟨inner, .inr ⟨parent, name, ends, own⟩⟩

theorem makeDirectory_wellFormed (wf : w.files.WellFormed) (h : w.makeDirectory p = .ok w') :
    w'.files.WellFormed := by
  obtain ⟨⟨location, old⟩, hplace, h⟩ := bind_eq_ok.mp h
  cases old with
  | some node => cases h
  | none =>
    cases h
    exact wellFormed_put wf trivial hplace

/-- Directories that are made one after the other keep the tree well formed, also when one of them
is refused. -/
theorem makeFirst_wellFormed (wf : w.files.WellFormed) (paths : List Path) :
    (w.makeFirst paths).1.files.WellFormed := by
  induction paths with
  | nil => exact wf
  | cons path paths ih =>
    rw [makeFirst]
    split
    · next made => exact makeDirectory_wellFormed wf made
    · split
      · next reached fault above => exact above ▸ ih
      · next reached above =>
        have reachedWf : reached.files.WellFormed := by
          rw [above] at ih
          exact ih
        split
        · next made => exact makeDirectory_wellFormed reachedWf made
        · exact reachedWf
    · exact wf

theorem makeDirectories_wellFormed (wf : w.files.WellFormed) (p : Path) :
    (w.makeDirectories p).1.files.WellFormed :=
  makeFirst_wellFormed wf p.ancestors

theorem remove_wellFormed (wf : w.files.WellFormed) (h : w.remove p = .ok w') :
    w'.files.WellFormed := by
  rw [remove] at h
  split at h
  · cases h
    exact wf
  · cases h
  · obtain ⟨location, _, h⟩ := bind_eq_ok.mp h
    cases h
    exact wellFormed_alter wf fun old node put => nomatch put

theorem write_wellFormed {content : ByteArray} {executable : Bool} (wf : w.files.WellFormed)
    (h : w.write p content executable = .ok w') : w'.files.WellFormed := by
  unfold write at h
  split at h
  · cases h
  · obtain ⟨location, located, h⟩ := bind_eq_ok.mp h
    have named := target_eq_ok located
    split at h
    · cases h
    · cases h
      refine wellFormed_alter wf fun old node put => ?_
      cases put
      exact ⟨trivial, named⟩
    · cases h
      refine wellFormed_alter wf fun old node put => ?_
      cases put
      exact ⟨trivial, named⟩

end World

end BuildRunner
