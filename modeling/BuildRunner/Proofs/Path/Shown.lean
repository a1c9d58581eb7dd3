import BuildRunner.Proofs.Path.Join
import BuildRunner.Proofs.Path.Prefix

/-!
# Paths as they are shown

What is shown of a path is a text, and a path again. It has a slash where the path has one, so it
has the components that are shown of those of the path, one for each (`components_shown`), and to
join paths and to show them can be done in either order (`shown_join`). A path is lost only in its
names: where all components are Unicode, it is shown as it is (`isUnicode_of_components`).
-/

namespace BuildRunner

/-- What is shown of a name that is a step down is one, too. -/
theorem IsSegment.shown {name : RawText} (h : IsSegment name) :
    IsSegment (name.text : RawText) := by
  have other {s : String} (ascii : Text.IsAscii s) (ne : name ≠ s) : (name.text : RawText) ≠ s :=
    mt (RawText.ofString_text_eq_iff ascii).mp ne
  refine ⟨other (by decide) h.ne_empty, other (by decide) h.ne_here, other (by decide) h.ne_up, ?_,
    ?_⟩
  · exact mt (RawText.mem_bytes_text_iff (c := '/') (by decide)).mp h.no_slash
  · exact mt (RawText.mem_bytes_text_iff (c := '\x00') (by decide)).mp h.no_nul

namespace Path

open RawText (ofString_text_eq_iff)

variable {p q : Path} {segment : RawText}

/-- What is shown of a path, as a path. -/
def shown (p : Path) : Path :=
  ⟨p.text⟩

/-- A path that is a text is shown as this text. -/
@[simp] theorem text_mk (s : String) : (Path.mk s).text = s :=
  RawText.text_ofString s

@[simp] theorem shown_mk (s : String) : (Path.mk s).shown = ⟨s⟩ :=
  congrArg (Path.mk ∘ RawText.ofString) (text_mk s)

/-- What is shown of a component. Only names can be shown as others. -/
def Component.shown : Component → Component
  | .name own => .name own.text
  | component => component

/-! ## Segments -/

/-- A slash is shown, and the raw texts around it are shown by themselves. -/
theorem text_append_slash (a b : RawText) : (a ++ "/" ++ b).text = a.text ++ "/" ++ b.text := by
  rw [← String.toList_inj]
  simp only [String.toList_append, RawText.toList_text, RawText.bytes_append, List.append_assoc]
  exact Text.readableChars_append_cons a.bytes b.bytes (by decide)

theorem not_mem_text (plain : slash ∉ segment.bytes) : slash ∉ (segment.text : RawText).bytes :=
  mt (RawText.mem_bytes_text_iff (c := '/') (by decide)).mp plain

theorem text_intercalate (segments : List RawText) :
    ((RawText.intercalate "/" segments).text : RawText) =
      RawText.intercalate "/" (segments.map fun segment => (segment.text : RawText)) := by
  induction segments with
  | nil => rfl
  | cons segment segments ih =>
    by_cases single : segments = []
    · rw [single, List.map_singleton, RawText.intercalate_singleton, RawText.intercalate_singleton]
    · rw [RawText.intercalate_cons_of_ne_nil single, text_append_slash, RawText.ofString_append,
        RawText.ofString_append, ih, List.map_cons,
        RawText.intercalate_cons_of_ne_nil (mt List.map_eq_nil_iff.mp single)]

/-- The segments that are shown are those of the path, each as it is shown. -/
theorem segments_shown (p : Path) :
    p.shown.segments = p.segments.map fun segment => (segment.text : RawText) := by
  rw [segments, shown, text, ← p.intercalate_segments, text_intercalate,
    pieces_intercalate (mt List.map_eq_nil_iff.mp p.segments_ne_nil)]
  exact List.forall_mem_map.mpr fun _ mem => not_mem_text (not_mem_of_mem_segments mem)

/-! ## Components -/

theorem isFiller_text (segment : RawText) : isFiller segment.text = isFiller segment := by
  rw [isFiller, isFiller, decide_eq_decide.mpr (ofString_text_eq_iff (by decide)),
    decide_eq_decide.mpr (ofString_text_eq_iff (by decide))]

theorem componentOf_text (segment : RawText) :
    componentOf segment.text = (componentOf segment).shown := by
  by_cases up : segment = ".."
  · rw [componentOf, componentOf, if_pos up, if_pos ((ofString_text_eq_iff (by decide)).mpr up)]
    rfl
  · rw [componentOf, componentOf, if_neg up, if_neg (mt (ofString_text_eq_iff (by decide)).mp up)]
    rfl

theorem bodyComponents_map_text (segments : List RawText) :
    bodyComponents (segments.map fun segment => (segment.text : RawText)) =
      (bodyComponents segments).map Component.shown := by
  simp only [bodyComponents, List.filter_map, List.map_map, Function.comp_def, isFiller_text,
    componentOf_text]

theorem isAbsolute_shown (p : Path) : p.shown.isAbsolute = p.isAbsolute := by
  refine Bool.eq_iff_iff.mpr ⟨fun absolute => ?_, fun absolute => ?_⟩
  · have first := head?_segments_of_isAbsolute absolute
    rw [segments_shown, List.head?_map, Option.map_eq_some_iff] at first
    obtain ⟨segment, head, empty⟩ := first
    rw [ofString_text_eq_iff (by decide)] at empty
    refine (raw_eq_empty_or_isAbsolute (empty ▸ head)).resolve_left fun none => ?_
    rw [shown, text, none] at absolute
    exact absurd absolute (by decide)
  · obtain ⟨rest, bytes⟩ := List.head?_eq_some_iff.mp (of_decide_eq_true absolute)
    have raw : p.raw = "" ++ "/" ++ ⟨rest⟩ := RawText.ext bytes
    have led : (p.text : RawText) = "/" ++ (RawText.text ⟨rest⟩ : RawText) := by
      rw [text, raw, text_append_slash, RawText.ofString_append, RawText.ofString_append]
      rfl
    rw [shown, led]
    exact decide_eq_true rfl

theorem lead_shown (p : Path) : p.shown.lead = p.lead.map Component.shown := by
  have here : p.shown.segments.head? = some ("." : RawText) ↔
      p.segments.head? = some ("." : RawText) := by
    rw [segments_shown, List.head?_map, Option.map_eq_some_iff]
    simp [ofString_text_eq_iff (s := ".") (by decide)]
  rw [lead, lead, isAbsolute_shown, ite_congr (propext here) (fun _ => rfl) fun _ => rfl]
  split
  · rfl
  · split <;> rfl

/-- **What is shown of a path has the components that are shown.** -/
theorem components_shown (p : Path) : p.shown.components = p.components.map Component.shown := by
  rw [components_eq, components_eq, lead_shown, segments_shown, bodyComponents_map_text,
    List.map_append, Option.toList_map]

/-- A path that is shown ends in the name that is shown of the last one. -/
theorem fileName?_shown (p : Path) :
    p.shown.fileName? = p.fileName?.map fun own => (own.text : RawText) := by
  rw [fileName?, fileName?, components_shown, List.getLast?_map]
  cases p.components.getLast? with
  | none => rfl
  | some component => cases component <;> rfl

/-! ## Joining -/

theorem raw_shown_eq_empty_iff : p.shown.raw = "" ↔ p.raw = "" :=
  ofString_text_eq_iff (by decide)

theorem slashed_of_append {front : RawText} (ends : p.raw = front ++ "/") :
    p.slashed = front ++ "/" := by
  rw [slashed, ends, if_pos (by simp)]

/-- The slash that is added to a path is added to what is shown of it. -/
theorem slashed_shown (p : Path) :
    ∃ front : RawText, p.slashed = front ++ "/" ∧
      p.shown.slashed = (front.text : RawText) ++ "/" := by
  have shows (front : RawText) :
      ((front ++ "/").text : RawText) = (front.text : RawText) ++ "/" := by
    rw [RawText.text_append (by decide), RawText.ofString_append]
  by_cases closed : p.raw.bytes.getLast? = some slash
  · obtain ⟨front, raw, _⟩ := exists_eq_append_slash closed
    exact ⟨front, slashed_of_append raw, slashed_of_append (by rw [shown, text, raw, shows])⟩
  · refine ⟨p.raw, by rw [slashed, if_neg closed], ?_⟩
    rw [slashed, if_neg]
    · rfl
    · intro ends
      obtain ⟨front, raw, _⟩ := exists_eq_append_slash ends
      have text : p.raw.text = front.text ++ "/" := by
        rw [← RawText.text_append (by decide), ← raw]
        exact (RawText.text_ofString p.text).symm
      obtain ⟨before, own, _⟩ := (RawText.text_eq_append_iff (by decide)).mp text
      exact closed (by rw [own]; simp)

/-- **Paths can be joined before or after they are shown.** -/
theorem shown_join (p q : Path) : (p.join q).shown = p.shown.join q.shown := by
  cases absolute : q.isAbsolute with
  | true =>
    rw [join_of_isAbsolute p absolute, join_of_isAbsolute _ ((isAbsolute_shown q).trans absolute)]
  | false =>
    by_cases empty : p.raw = ""
    · rw [join_of_empty empty, join_of_empty (raw_shown_eq_empty_iff.mpr empty)]
    · obtain ⟨front, own, other⟩ := p.slashed_shown
      rw [join_of_relative empty absolute, join_of_relative (mt raw_shown_eq_empty_iff.mp empty)
        ((isAbsolute_shown q).trans absolute), own, other]
      rw [shown, text, text_append_slash, RawText.ofString_append, RawText.ofString_append]
      rfl

/-- Behind a text, only what is joined can be shown as something else. -/
theorem text_join_shown (s : String) (q : Path) :
    ((Path.mk s).join q.shown).text = ((Path.mk s).join q).text := by
  rw [← shown_mk s, ← shown_join, shown_mk]
  exact text_mk _

/-- Texts that are joined are shown as they are. -/
theorem mk_text_join (s t : String) :
    Path.mk ((Path.mk s).join ⟨t⟩).text = (Path.mk s).join ⟨t⟩ := by
  have shown := shown_join ⟨s⟩ ⟨t⟩
  rwa [shown_mk, shown_mk] at shown

/-! ## Paths that are shown as they are -/

/-- A path is Unicode if its components are. -/
theorem isUnicode_of_components (all : ∀ component ∈ p.components, component.segment.IsUnicode) :
    p.raw.IsUnicode := by
  rw [← p.intercalate_segments]
  refine RawText.isUnicode_intercalate (RawText.isUnicode_ofString "/") fun segment mem => ?_
  by_cases filler : isFiller segment = true
  · simp only [isFiller, Bool.or_eq_true, decide_eq_true_eq] at filler
    rcases filler with rfl | rfl <;> exact RawText.isUnicode_ofString _
  · have own : componentOf segment ∈ p.components := by
      rw [components_eq, bodyComponents]
      exact List.mem_append_right _
        (List.mem_map_of_mem (List.mem_filter.mpr ⟨mem, by simp [filler]⟩))
    rw [← segment_componentOf segment]
    exact all _ own

theorem isUnicode_segment {component : Component} (same : component.shown = component) :
    component.segment.IsUnicode := by
  cases component with
  | name own => exact ⟨own.text, (Component.name.inj same).symm⟩
  | root => exact RawText.isUnicode_ofString _
  | here => exact RawText.isUnicode_ofString _
  | up => exact RawText.isUnicode_ofString _

/-- The components of a path that is Unicode are. -/
theorem isUnicode_of_mem_components (unicode : p.raw.IsUnicode) :
    ∀ component ∈ p.components, component.segment.IsUnicode := by
  have own : p.shown = p := congrArg Path.mk unicode.ofString_text
  have fixed : p.components.map Component.shown = p.components.map id := by
    rw [← components_shown, own, List.map_id]
  exact fun component mem => isUnicode_segment (List.map_inj_left.mp fixed component mem)

end Path

end BuildRunner
