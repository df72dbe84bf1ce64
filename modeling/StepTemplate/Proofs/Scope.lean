import StepTemplate.Proofs.Text.Pieces
import StepTemplate.Scope

namespace StepTemplate

/-!
# Wrapping and detecting

A search for enclosed characters finds them wherever they stand, since no mark is among them. So a
wrapped text is seen to be wrapped, and a text without `$` is not.
-/

namespace Scope

open Text

variable {m : Scope} {mark s u value : List Char} {p : Char → Bool}

theorem mark_eq_replicate (m : Scope) : m.mark = List.replicate m.mark.length '$' := by
  cases m <;> rfl

theorem wrap_eq_replicate (m : Scope) (u : List Char) :
    m.wrap u = List.replicate m.mark.length '$' ++ u ++ List.replicate m.mark.length '$' := by
  rw [wrap, ← mark_eq_replicate]

theorem mem_mark {c : Char} (h : c ∈ m.mark) : c = '$' := by
  rw [mark_eq_replicate] at h
  exact List.eq_of_mem_replicate h

theorem unwrap_wrap (hne : u ≠ []) (hu : '$' ∉ u) : unwrap (m.wrap u) = u := by
  have hmark : ∀ c ∈ m.mark, (c == '$') = true := fun c hc => by simp [mem_mark hc]
  have hstop : ∀ c ∈ u, (c == '$') = false := by
    intro c hc
    have hne : c ≠ '$' := by
      rintro rfl
      exact hu hc
    simpa using hne
  apply strip_enclosed hmark hmark (stopsAt_of_forall hstop) _ hne
  exact stopsAt_of_forall fun c hc => hstop c (List.mem_reverse.mp hc)

/-! ## What stands between two marks -/

theorem startsEnclosed_iff (hne : mark ≠ []) (hmark : ∀ c ∈ mark, p c = false) :
    startsEnclosed mark p s = true ↔
      ∃ u after, s = mark ++ (u ++ (mark ++ after)) ∧ u ≠ [] ∧ ∀ c ∈ u, p c = true := by
  simp only [startsEnclosed, Bool.and_eq_true, bne_iff_ne, List.isPrefixOf_iff_prefix]
  constructor
  · rintro ⟨⟨⟨t, rfl⟩, htake⟩, after, hdrop⟩
    rw [List.drop_left] at htake hdrop
    refine ⟨t.takeWhile p, after, ?_, htake, fun c hc => List.mem_takeWhile_imp hc⟩
    rw [hdrop, List.takeWhile_append_dropWhile]
  · rintro ⟨u, after, rfl, hu, hp⟩
    have hstop : StopsAt p (mark ++ after) :=
      (stopsAt_of_forall hmark).append_of_ne_nil hne
    rw [List.drop_left, takeWhile_append_of_stops hp hstop, dropWhile_append_of_stops hp hstop]
    exact ⟨⟨List.prefix_append _ _, hu⟩, List.prefix_append _ _⟩

theorem hasEnclosed_iff (hne : mark ≠ []) (hmark : ∀ c ∈ mark, p c = false) :
    hasEnclosed mark p s = true ↔
      ∃ before u after, s = before ++ (mark ++ (u ++ (mark ++ after))) ∧ u ≠ [] ∧
        ∀ c ∈ u, p c = true := by
  induction s with
  | nil => simp [hasEnclosed, hne]
  | cons c s ih =>
      rw [hasEnclosed, Bool.or_eq_true, startsEnclosed_iff hne hmark, ih]
      constructor
      · rintro (⟨u, after, h, hu⟩ | ⟨before, u, after, rfl, hu⟩)
        · exact ⟨[], u, after, h, hu⟩
        · exact ⟨c :: before, u, after, rfl, hu⟩
      · rintro ⟨before, u, after, h, hu⟩
        cases before with
        | nil => exact Or.inl ⟨u, after, h, hu⟩
        | cons d before => exact Or.inr ⟨before, u, after, (List.cons_eq_cons.mp h).2, hu⟩

theorem hasEnclosed_single_iff :
    hasEnclosed single.mark isSingleChar s = true ↔
      ∃ before u after, s = before ++ ('$' :: (u ++ ('$' :: after))) ∧ u ≠ [] ∧
        ∀ c ∈ u, isSingleChar c = true :=
  hasEnclosed_iff (by simp) fun _ hc => mem_mark hc ▸ rfl

theorem hasEnclosed_double_iff :
    hasEnclosed double.mark isDoubleChar s = true ↔
      ∃ before u after, s = before ++ ('$' :: '$' :: (u ++ ('$' :: '$' :: after))) ∧ u ≠ [] ∧
        ∀ c ∈ u, isDoubleChar c = true :=
  hasEnclosed_iff (by simp) fun _ hc => mem_mark hc ▸ rfl

theorem detect?_of_notMem (h : '$' ∉ value) : detect? value = none := by
  have hnone : ¬ hasEnclosed single.mark isSingleChar value = true := by
    rw [hasEnclosed_single_iff]
    rintro ⟨before, u, after, rfl, -⟩
    simp at h
  rw [detect?, if_neg hnone]

/-! ## Wrapped texts -/

/-- The marks cut out what they enclose and nothing else but empty pieces. -/
theorem eq_of_mem_pieces_wrap {v : List Char} (hu : '$' ∉ u) (hv : v ≠ [])
    (h : v ∈ pieces '$' (m.wrap u)) : v = u := by
  cases m with
  | single =>
      have hpieces : pieces '$' (single.wrap u) = [[], u, []] := by
        simp [wrap, pieces_sep, pieces_append_sep, pieces_of_notMem hu]
      simpa [hpieces, hv] using h
  | double =>
      have hpieces : pieces '$' (double.wrap u) = [[], [], u, [], []] := by
        simp [wrap, pieces_sep, pieces_append_sep, pieces_of_notMem hu]
      simpa [hpieces, hv] using h

/-- A text between two marks is one of the pieces. -/
theorem mem_pieces_between (before : List Char) {v : List Char} (after : List Char)
    (hv : '$' ∉ v) : v ∈ pieces '$' (before ++ '$' :: (v ++ '$' :: after)) := by
  simp [pieces_append_sep, pieces_of_notMem hv]

theorem notMem_of_chars (hp : p '$' = false) {v : List Char} (hv : ∀ c ∈ v, p c = true) :
    '$' ∉ v := by
  intro hmem
  simp [hv '$' hmem] at hp

theorem hasEnclosed_single_wrap (hne : u ≠ []) (hu : '$' ∉ u) :
    hasEnclosed single.mark isSingleChar (m.wrap u) = true ↔ ∀ c ∈ u, isSingleChar c = true := by
  rw [hasEnclosed_single_iff]
  constructor
  · rintro ⟨before, v, after, h, hv, hchars⟩
    have hmem : v ∈ pieces '$' (m.wrap u) :=
      h ▸ mem_pieces_between _ _ (notMem_of_chars rfl hchars)
    rwa [eq_of_mem_pieces_wrap hu hv hmem] at hchars
  · intro hchars
    cases m with
    | single => exact ⟨[], u, [], by simp [wrap], hne, hchars⟩
    | double => exact ⟨['$'], u, ['$'], by simp [wrap], hne, hchars⟩

theorem hasEnclosed_double_wrap (hne : u ≠ []) (hu : '$' ∉ u) :
    hasEnclosed double.mark isDoubleChar (m.wrap u) = true ↔
      m = double ∧ ∀ c ∈ u, isDoubleChar c = true := by
  rw [hasEnclosed_double_iff]
  constructor
  · rintro ⟨before, v, after, h, hv, hchars⟩
    have hmem : v ∈ pieces '$' (m.wrap u) := by
      have hbetween := mem_pieces_between (before ++ ['$']) ('$' :: after)
        (notMem_of_chars rfl hchars)
      rwa [List.append_assoc, List.singleton_append, ← h] at hbetween
    obtain rfl := eq_of_mem_pieces_wrap hu hv hmem
    refine ⟨?_, hchars⟩
    cases m with
    | single =>
        -- four marks cannot come from two
        have hcount := congrArg (List.count '$') h
        simp only [wrap, mark_single, List.count_append, List.count_cons_self, List.count_nil,
          List.count_eq_zero.mpr hu] at hcount
        omega
    | double => rfl
  · rintro ⟨rfl, hchars⟩
    exact ⟨[], u, [], by simp [wrap], hne, hchars⟩

/-- What is detected of a wrapped text: a marker at all if the text may stand between single ones,
and two of them count as double if the text may stand between double ones too. -/
theorem detect?_wrap_eq (hne : u ≠ []) (hu : '$' ∉ u) :
    detect? (m.wrap u) =
      if u.all isSingleChar then
        some (if m = double ∧ u.all isDoubleChar then double else single)
      else none := by
  simp only [detect?, hasEnclosed_single_wrap hne hu, hasEnclosed_double_wrap hne hu,
    List.all_eq_true]

/-! ## The characters between marks -/

theorem isSingleChar_iff_of_isDoubleChar {c : Char} (h : isDoubleChar c = true) :
    isSingleChar c = true ↔ c ≠ '\x27' ∧ c ≠ ',' := by
  constructor
  · intro hsingle
    constructor <;> rintro rfl <;> exact absurd hsingle (by decide)
  · rintro ⟨hquote, hcomma⟩
    simp only [isDoubleChar, Bool.or_eq_true, decide_eq_true_eq, List.mem_cons,
      List.not_mem_nil, or_false] at h
    rcases h with hword | rfl | rfl | rfl | hc | hc
    · simp [isSingleChar, hword]
    · decide
    · decide
    · decide
    · exact absurd hc hquote
    · exact absurd hc hcomma

/-- Quotes and commas may stand between double marks only. -/
theorem forall_isSingleChar_iff (hchars : ∀ c ∈ u, isDoubleChar c = true) :
    (∀ c ∈ u, isSingleChar c = true) ↔ ¬ ('\x27' ∈ u ∨ ',' ∈ u) := by
  rw [not_or]
  constructor
  · intro h
    exact ⟨fun hmem => absurd (h _ hmem) (by decide), fun hmem => absurd (h _ hmem) (by decide)⟩
  · rintro ⟨hquote, hcomma⟩ c hc
    rw [isSingleChar_iff_of_isDoubleChar (hchars c hc)]
    constructor <;> rintro rfl
    · exact hquote hc
    · exact hcomma hc

/-- Unwrapping undoes wrapping for both markers. The single marker is detected around any text
that may stand between single marks. The double marker is detected around a text that may stand
between double marks unless a quote or a comma is in the text: then no marker is detected, since
neither may stand between single marks. -/
theorem wrap_recognized (hne : u ≠ []) :
    ((∀ c ∈ u, isSingleChar c = true) →
      detect? (single.wrap u) = some single ∧ unwrap (single.wrap u) = u) ∧
    ((∀ c ∈ u, isDoubleChar c = true) →
      detect? (double.wrap u) = (if '\x27' ∈ u ∨ ',' ∈ u then none else some double) ∧
        unwrap (double.wrap u) = u) := by
  constructor
  · intro hchars
    have hu : '$' ∉ u := notMem_of_chars rfl hchars
    rw [detect?_wrap_eq hne hu, if_pos (List.all_eq_true.mpr hchars), if_neg (by simp)]
    exact ⟨rfl, unwrap_wrap hne hu⟩
  · intro hchars
    have hu : '$' ∉ u := notMem_of_chars rfl hchars
    refine ⟨?_, unwrap_wrap hne hu⟩
    rw [detect?_wrap_eq hne hu]
    simp only [List.all_eq_true, forall_isSingleChar_iff hchars, ite_not, true_and, if_pos hchars]

theorem wrap_recognized_made :
    "created(product)[0].id".toList ≠ [] ∧
    (∀ c ∈ "created(product)[0].id".toList, isSingleChar c = true) ∧
    detect? "$created(product)[0].id$".toList = some single ∧
    "made[0].id".toList ≠ [] ∧ (∀ c ∈ "made[0].id".toList, isDoubleChar c = true) ∧
    detect? "$$made[0].id$$".toList = some double ∧
    "made['id']".toList ≠ [] ∧ (∀ c ∈ "made['id']".toList, isDoubleChar c = true) ∧
    detect? "$$made['id']$$".toList = none ∧
    unwrap "$$made['id']$$".toList = "made['id']".toList := by
  have hsingle : ∀ c ∈ "created(product)[0].id".toList, isSingleChar c = true :=
    List.all_eq_true.mp (by decide)
  have hdouble : ∀ c ∈ "made[0].id".toList, isDoubleChar c = true :=
    List.all_eq_true.mp (by decide)
  have hquoted : ∀ c ∈ "made['id']".toList, isDoubleChar c = true :=
    List.all_eq_true.mp (by decide)
  have hcreated : "created(product)[0].id".toList ≠ [] := by decide
  have hmade : "made[0].id".toList ≠ [] := by decide
  have hmade' : "made['id']".toList ≠ [] := by decide
  obtain ⟨hnone, hunwrap⟩ := (wrap_recognized hmade').2 hquoted
  exact ⟨hcreated, hsingle, ((wrap_recognized hcreated).1 hsingle).1, hmade, hdouble,
    ((wrap_recognized hmade).2 hdouble).1, hmade', hquoted, hnone, hunwrap⟩

/-- The quotes may stand between double marks, and yet no marker is detected. -/
theorem not_recognized_quoted :
    "made['id']".toList ≠ [] ∧ (∀ c ∈ "made['id']".toList, isDoubleChar c = true) ∧
    double.wrap "made['id']".toList = "$$made['id']$$".toList ∧
    ¬ detect? (double.wrap "made['id']".toList) = some double :=
  ⟨by decide, List.all_eq_true.mp (by decide), by decide, by decide⟩

end Scope

end StepTemplate
