import StepTemplate.Proofs.Text.Stretch
import StepTemplate.Text.Pieces

namespace StepTemplate

/-!
# What the pieces of a text are

The pieces are free of the separator, and with separators between them they make up the text again.
So a text without the separator is its own only piece, and a separator cuts the pieces in two.
-/

namespace Text

theorem intercalate_pieces (sep : Char) (s : List Char) :
    [sep].intercalate (pieces sep s) = s := by
  induction s with
  | nil => rfl
  | cons c s ih =>
      obtain ⟨p, ps, hp⟩ := List.exists_cons_of_ne_nil (pieces_ne_nil sep s)
      by_cases hc : c = sep
      · subst hc
        rw [pieces_sep, hp, List.intercalate_cons_cons, ← hp, ih]
        rfl
      · rw [hp] at ih
        simp only [pieces, hc, if_false, hp]
        cases ps with
        | nil => simpa using ih
        | cons q ps =>
            rw [List.intercalate_cons_cons] at ih ⊢
            simp [← ih]

theorem sep_notMem_of_mem_pieces {sep : Char} {s p : List Char} (h : p ∈ pieces sep s) :
    sep ∉ p := by
  induction s generalizing p with
  | nil => simp_all
  | cons c s ih =>
      obtain ⟨q, qs, hq⟩ := List.exists_cons_of_ne_nil (pieces_ne_nil sep s)
      by_cases hc : c = sep
      · subst hc
        rw [pieces_sep, List.mem_cons] at h
        rcases h with rfl | h
        · simp
        · exact ih h
      · simp only [pieces, hc, if_false, hq, List.mem_cons] at h
        rcases h with rfl | h
        · have hsep := ih (p := q) (by simp [hq])
          simp [hsep, Ne.symm hc]
        · exact ih (by simp [hq, h])

theorem mem_of_mem_pieces {sep c : Char} {s piece : List Char} (h : piece ∈ pieces sep s)
    (hc : c ∈ piece) : c ∈ s := by
  induction s generalizing piece with
  | nil => simp_all
  | cons d s ih =>
      obtain ⟨q, qs, hq⟩ := List.exists_cons_of_ne_nil (pieces_ne_nil sep s)
      by_cases hd : d = sep
      · subst hd
        rw [pieces_sep, List.mem_cons] at h
        rcases h with rfl | h
        · simp at hc
        · exact List.mem_cons_of_mem d (ih h hc)
      · simp only [pieces, hd, if_false, hq, List.mem_cons] at h
        rcases h with rfl | h
        · rcases List.mem_cons.mp hc with rfl | hc
          · exact List.mem_cons_self
          · exact List.mem_cons_of_mem d (ih (by simp [hq]) hc)
        · exact List.mem_cons_of_mem d (ih (by simp [hq, h]) hc)

theorem pieces_append_sep (sep : Char) (a b : List Char) :
    pieces sep (a ++ sep :: b) = pieces sep a ++ pieces sep b := by
  induction a with
  | nil => exact pieces_sep sep b
  | cons c a ih =>
      by_cases hc : c = sep
      · subst hc
        rw [List.cons_append, pieces_sep, pieces_sep, ih, List.cons_append]
      · obtain ⟨p, ps, hp⟩ := List.exists_cons_of_ne_nil (pieces_ne_nil sep a)
        simp [pieces, hc, ih, hp]

theorem pieces_of_notMem {sep : Char} {s : List Char} (h : sep ∉ s) : pieces sep s = [s] := by
  induction s with
  | nil => rfl
  | cons c s ih =>
      rw [List.mem_cons, not_or] at h
      simp [pieces, Ne.symm h.1, ih h.2]

/-! ## Entries of a comma list -/

theorem comma_notMem_of_mem_commaList {s e : List Char} (h : e ∈ commaList s) : ',' ∉ e := by
  obtain ⟨hmap, -⟩ := List.mem_filter.mp h
  obtain ⟨piece, hpiece, rfl⟩ := List.mem_map.mp hmap
  exact fun hc => sep_notMem_of_mem_pieces hpiece (mem_of_mem_strip hc)

theorem commaList_append_comma (a b : List Char) :
    commaList (a ++ ',' :: b) = commaList a ++ commaList b := by
  simp [commaList, pieces_append_sep]

theorem commaList_cons_of_isBlank {c : Char} (hc : isBlank c = true) (s : List Char) :
    commaList (c :: s) = commaList s := by
  have hne : c ≠ ',' := by
    rintro rfl
    exact absurd hc (by decide)
  obtain ⟨p, ps, hp⟩ := List.exists_cons_of_ne_nil (pieces_ne_nil ',' s)
  simp [commaList, pieces, hne, hp, trim, strip_cons hc]

theorem commaList_of_notMem {e : List Char} (hne : e ≠ []) (hcomma : ',' ∉ e)
    (htrim : trim e = e) : commaList e = [e] := by
  simp [commaList, pieces_of_notMem hcomma, htrim, hne]

/-- The entries of a comma list are read back from it. -/
theorem commaList_intercalate {es : List (List Char)}
    (hes : ∀ e ∈ es, e ≠ [] ∧ ',' ∉ e ∧ trim e = e) :
    commaList ([',', ' '].intercalate es) = es := by
  induction es with
  | nil => rfl
  | cons e es ih =>
      obtain ⟨hne, hcomma, htrim⟩ := hes e List.mem_cons_self
      have hrest := ih fun x hx => hes x (List.mem_cons_of_mem e hx)
      cases es with
      | nil => simpa using commaList_of_notMem hne hcomma htrim
      | cons f es =>
          rw [List.intercalate_cons_cons, List.append_assoc, List.cons_append,
            List.singleton_append, commaList_append_comma, commaList_of_notMem hne hcomma htrim,
            commaList_cons_of_isBlank (by decide), hrest, List.singleton_append]

/-! ## Entries between blanks and blank pieces -/

/-- A name without the separator `sep`, and without blanks at its ends. -/
structure IsName (sep : Char) (s : List Char) : Prop where
  ne_nil : s ≠ []
  notMem : sep ∉ s
  head : ∀ c ∈ s.head?, isBlank c = false
  last : ∀ c ∈ s.getLast?, isBlank c = false

instance (sep : Char) (s : List Char) : Decidable (IsName sep s) :=
  decidable_of_iff (s ≠ [] ∧ sep ∉ s ∧ s.head?.all (!isBlank ·) = true ∧
      s.getLast?.all (!isBlank ·) = true) (by
    simp only [Option.all_eq_true, Bool.not_eq_true']
    exact ⟨fun ⟨hne, hsep, hhead, hlast⟩ => ⟨hne, hsep, hhead, hlast⟩,
      fun h => ⟨h.ne_nil, h.notMem, h.head, h.last⟩⟩)

theorem IsName.trim_eq {sep : Char} {s : List Char} (h : IsName sep s) : trim s = s :=
  strip_eq_self h.head h.last

theorem isName_of_mem_commaList {s e : List Char} (h : e ∈ commaList s) : IsName ',' e := by
  obtain ⟨hmap, -⟩ := List.mem_filter.mp h
  obtain ⟨piece, -, rfl⟩ := List.mem_map.mp hmap
  refine ⟨ne_nil_of_mem_commaList h, comma_notMem_of_mem_commaList h, stopsAt_strip isBlank piece,
    fun c hc => ?_⟩
  rw [← List.head?_reverse] at hc
  exact stopsAt_reverse_strip isBlank piece c hc

/-- The pieces of a list hold its entries in order, each between blanks, and blank pieces. -/
inductive Holds : List (List Char) → List (List Char) → Prop where
  | nil : Holds [] []
  | entry (front e back : List Char) (pieces es : List (List Char))
      (hfront : ∀ c ∈ front, isBlank c = true) (hback : ∀ c ∈ back, isBlank c = true)
      (h : Holds pieces es) : Holds ((front ++ e ++ back) :: pieces) (e :: es)
  | blank (piece : List Char) (pieces es : List (List Char))
      (hpiece : ∀ c ∈ piece, isBlank c = true) (h : Holds pieces es) : Holds (piece :: pieces) es

theorem commaList_of_isBlank {s : List Char} (h : ∀ c ∈ s, isBlank c = true) :
    commaList s = [] := by
  induction s with
  | nil => rfl
  | cons c s ih =>
      obtain ⟨hc, hs⟩ := List.forall_mem_cons.mp h
      rw [commaList_cons_of_isBlank hc, ih hs]

theorem comma_notMem_of_isBlank {s : List Char} (h : ∀ c ∈ s, isBlank c = true) : ',' ∉ s :=
  fun hc => absurd (h ',' hc) (by decide)

theorem commaList_between_blanks {front e back : List Char} (hfront : ∀ c ∈ front, isBlank c = true)
    (hback : ∀ c ∈ back, isBlank c = true) (he : IsName ',' e) :
    commaList (front ++ e ++ back) = [e] := by
  have hlast : StopsAt isBlank e.reverse := by
    rw [StopsAt, List.head?_reverse]
    exact he.last
  have htrim : trim (front ++ e ++ back) = e :=
    strip_enclosed hfront hback he.head hlast he.ne_nil
  have hcomma : ',' ∉ front ++ e ++ back := by
    simp [he.notMem, comma_notMem_of_isBlank hfront, comma_notMem_of_isBlank hback]
  rw [commaList, pieces_of_notMem hcomma, List.map_singleton, htrim]
  exact List.filter_cons_of_pos (by simpa using he.ne_nil)

theorem commaList_intercalate_cons (piece : List Char) (pieces : List (List Char)) :
    commaList ([','].intercalate (piece :: pieces)) =
      commaList piece ++ commaList ([','].intercalate pieces) := by
  cases pieces with
  | nil => simp
  | cons next pieces =>
      rw [List.intercalate_cons_cons, List.append_assoc, List.singleton_append,
        commaList_append_comma]

/-- What is put around the entries of a list, and blank pieces between them, does not count. -/
theorem Holds.commaList_eq {pieces es : List (List Char)} (h : Holds pieces es)
    (hes : ∀ e ∈ es, IsName ',' e) : commaList ([','].intercalate pieces) = es := by
  induction h with
  | nil => rfl
  | entry front e back pieces es hfront hback h ih =>
      obtain ⟨he, hes⟩ := List.forall_mem_cons.mp hes
      rw [commaList_intercalate_cons, commaList_between_blanks hfront hback he, ih hes,
        List.singleton_append]
  | blank piece pieces es hpiece h ih =>
      rw [commaList_intercalate_cons, commaList_of_isBlank hpiece, ih hes, List.nil_append]

theorem holds_self (es : List (List Char)) : Holds es es := by
  induction es with
  | nil => exact .nil
  | cons e es ih => simpa using Holds.entry [] e [] es es (by simp) (by simp) ih

end Text

end StepTemplate
