import Mathlib.Data.List.Pairwise
import StepTemplate.Proofs.Placeholder.Pattern
import StepTemplate.Proofs.Text.Pieces

namespace StepTemplate

/-!
# What a scan reports

Placeholders never overlap, so the search from left to right, which goes on behind each placeholder
found, misses none of them.
-/

namespace Text

theorem utf8ByteSize_ofList (s : List Char) : (String.ofList s).utf8ByteSize = byteLength s := by
  induction s with
  | nil => rfl
  | cons c s ih =>
      rw [String.ofList_cons, String.utf8ByteSize_append, String.utf8ByteSize_singleton, ih]
      rfl

theorem eq_nil_of_byteLength {s : List Char} (h : byteLength s = 0) : s = [] := by
  cases s with
  | nil => rfl
  | cons c s =>
      have := c.utf8Size_pos
      rw [byteLength] at h
      omega

theorem byteLength_toList (text : String) : byteLength text.toList = text.utf8ByteSize := by
  rw [← utf8ByteSize_ofList, String.ofList_toList]

theorem append_inj_of_byteLength {a b a' b' : List Char} (h : a ++ b = a' ++ b')
    (hlen : byteLength a = byteLength a') : a = a' ∧ b = b' := by
  obtain ⟨t, rfl, rfl⟩ | ⟨t, rfl, rfl⟩ := List.append_eq_append_iff.mp h
  · rw [byteLength_append] at hlen
    obtain rfl : t = [] := eq_nil_of_byteLength (by omega)
    simp
  · rw [byteLength_append] at hlen
    obtain rfl : t = [] := eq_nil_of_byteLength (by omega)
    simp

end Text

namespace Placeholder

open Text

/-! ## Cutting a text -/

theorem cut_text_append {w : Written} {rest : List Char}
    (h : Written.leading? (w.text ++ rest) = some w) :
    cut (w.text ++ rest) = .placeholder w :: cut rest := by
  obtain ⟨t, ht⟩ : ∃ t, w.text = '{' :: t := ⟨_, rfl⟩
  rw [ht, List.cons_append] at h ⊢
  rw [cut, cutFrom, h]
  simp only [cutFrom_eq_drop, ht, List.length_cons, Nat.add_sub_cancel, List.drop_left]

theorem cut_cons_of_none {c : Char} {s : List Char} (h : Written.leading? (c :: s) = none) :
    cut (c :: s) = .char c :: cut s := by
  rw [cut, cutFrom, h]
  rfl

/-- Induction along the cuts of a text. -/
@[elab_as_elim] theorem cut_induction {motive : List Char → Prop} (nil : motive [])
    (placeholder : ∀ w rest, Written.leading? (w.text ++ rest) = some w → motive rest →
      motive (w.text ++ rest))
    (char : ∀ c s, Written.leading? (c :: s) = none → motive s → motive (c :: s))
    (s : List Char) : motive s := by
  induction hn : s.length using Nat.strongRecOn generalizing s with
  | ind n ih =>
      subst hn
      cases s with
      | nil => exact nil
      | cons c s =>
          cases h : Written.leading? (c :: s) with
          | none => exact char c s h (ih s.length (by simp) s rfl)
          | some w =>
              obtain ⟨-, -, rest, hs⟩ := Written.leading?_spec h
              have hlt : rest.length < (c :: s).length := by
                have := w.two_le_length_text
                rw [hs, List.length_append]
                omega
              rw [hs] at h ⊢
              exact placeholder w rest h (ih rest.length hlt rest rfl)

theorem leading?_of_cut {s : List Char} {w : Written} {ps : List Piece}
    (h : cut s = .placeholder w :: ps) : Written.leading? s = some w := by
  cases s using cut_induction with
  | nil => exact absurd h (List.cons_ne_nil _ _).symm
  | placeholder v rest hv _ =>
      rw [cut_text_append hv, List.cons_eq_cons, Piece.placeholder.injEq] at h
      rw [hv, h.1]
  | char c s hnone _ =>
      rw [cut_cons_of_none hnone] at h
      exact absurd (List.cons_eq_cons.mp h).1 (by simp)

/-! ## The spans -/

theorem mem_spansFrom_cut {k : Nat} {s : List Char} {x : Span} :
    x ∈ spansFrom k (cut s) ↔ ∃ before w rest, s = before ++ (w.text ++ rest) ∧
      Written.leading? (w.text ++ rest) = some w ∧
      x = ⟨k + byteLength before, k + byteLength (before ++ w.text), w.references⟩ := by
  induction s using cut_induction generalizing k with
  | nil =>
      simp only [cut_nil, spansFrom, List.not_mem_nil, false_iff]
      rintro ⟨before, w, rest, hs, -⟩
      simp [Written.text] at hs
  | placeholder v rest h ih =>
      rw [cut_text_append h, spansFrom, List.mem_cons, ih]
      constructor
      · rintro (rfl | ⟨before, w, rest, rfl, hw, rfl⟩)
        · exact ⟨[], v, rest, rfl, h, by simp⟩
        · exact ⟨v.text ++ before, w, rest, by simp, hw, by simp [Nat.add_assoc]⟩
      · rintro ⟨before, w, rest', hs, hw, rfl⟩
        by_cases hb : before = []
        · left
          subst hb
          rw [List.nil_append] at hs
          rw [hs, hw] at h
          simp [Option.some.inj h]
        · right
          have hv := (Written.leading?_spec h).1
          obtain ⟨t, rfl⟩ := hv.prefix_of_append hb hs
          refine ⟨t, w, rest', by simpa using hs, hw, by simp [Nat.add_assoc]⟩
  | char c s h ih =>
      rw [cut_cons_of_none h, spansFrom, ih]
      constructor
      · rintro ⟨before, w, rest, rfl, hw, rfl⟩
        exact ⟨c :: before, w, rest, rfl, hw, by simp [byteLength, Nat.add_assoc]⟩
      · rintro ⟨before, w, rest, hs, hw, rfl⟩
        cases before with
        | nil =>
            rw [List.nil_append] at hs
            simp [hs, hw] at h
        | cons d before =>
            obtain ⟨rfl, rfl⟩ := List.cons_eq_cons.mp hs
            exact ⟨before, w, rest, rfl, hw, by simp [byteLength, Nat.add_assoc]⟩

theorem Written.byteLength_text_pos (w : Written) : 0 < byteLength w.text := by
  simp only [Written.text, byteLength]
  have : 0 < ('{' : Char).utf8Size := by decide
  omega

theorem le_start_of_mem_spansFrom {k : Nat} {ps : List Piece} {x : Span}
    (hx : x ∈ spansFrom k ps) : k ≤ x.start := by
  induction ps generalizing k with
  | nil => simp [spansFrom] at hx
  | cons p ps ih =>
      cases p with
      | char c => exact Nat.le_of_add_right_le (ih hx)
      | placeholder w =>
          rcases List.mem_cons.mp hx with rfl | hx
          · exact le_rfl
          · exact Nat.le_of_add_right_le (ih hx)

theorem pairwise_spansFrom (k : Nat) (ps : List Piece) :
    (spansFrom k ps).Pairwise fun x y => x.start < x.stop ∧ x.stop ≤ y.start := by
  induction ps generalizing k with
  | nil => exact List.Pairwise.nil
  | cons p ps ih =>
      cases p with
      | char c => exact ih _
      | placeholder w =>
          refine List.pairwise_cons.mpr ⟨fun y hy => ⟨?_, le_start_of_mem_spansFrom hy⟩, ih _⟩
          exact Nat.lt_add_of_pos_right w.byteLength_text_pos

theorem occursIn_iff {s : List Char} :
    occursIn s = true ↔
      ∃ before w rest, s = before ++ (w.text ++ rest) ∧
        Written.leading? (w.text ++ rest) = some w := by
  induction s with
  | nil => simp [occursIn, Written.text]
  | cons c s ih =>
      rw [occursIn, Bool.or_eq_true, Option.isSome_iff_exists, ih]
      constructor
      · rintro (⟨w, hw⟩ | ⟨before, w, rest, rfl, hw⟩)
        · obtain ⟨-, -, rest, hs⟩ := Written.leading?_spec hw
          exact ⟨[], w, rest, hs, hs ▸ hw⟩
        · exact ⟨c :: before, w, rest, rfl, hw⟩
      · rintro ⟨before, w, rest, hs, hw⟩
        cases before with
        | nil => exact Or.inl ⟨w, by rwa [hs]⟩
        | cons d before => exact Or.inr ⟨before, w, rest, (List.cons_eq_cons.mp hs).2, hw⟩

/-- The placeholder `w` stands in a text from byte `start` up to byte `stop`. What comes before and
behind it are texts too, so no character is divided. -/
def Written.StandsAt (w : Written) (text : String) (start stop : Nat) : Prop :=
  w.Formed ∧ ∃ before after : String, text = before ++ String.ofList w.text ++ after ∧
    before.utf8ByteSize = start ∧ (before ++ String.ofList w.text).utf8ByteSize = stop

theorem Written.standsAt_iff {w : Written} {text : String} {start stop : Nat} :
    w.StandsAt text start stop ↔
      w.Formed ∧ ∃ before rest, text.toList = before ++ (w.text ++ rest) ∧
        byteLength before = start ∧ byteLength (before ++ w.text) = stop := by
  refine and_congr_right fun _ => ⟨?_, ?_⟩
  · rintro ⟨before, after, rfl, hstart, hstop⟩
    refine ⟨before.toList, after.toList, by simp, ?_, ?_⟩
    · rw [← hstart, ← utf8ByteSize_ofList, String.ofList_toList]
    · rw [← hstop, ← utf8ByteSize_ofList, String.ofList_append, String.ofList_toList]
  · rintro ⟨before, rest, htext, hstart, hstop⟩
    refine ⟨String.ofList before, String.ofList rest, ?_, ?_, ?_⟩
    · rw [← String.ofList_append, ← String.ofList_append, List.append_assoc, ← htext,
        String.ofList_toList]
    · rw [utf8ByteSize_ofList, hstart]
    · rw [← String.ofList_append, utf8ByteSize_ofList, hstop]

theorem mem_spans {text : String} {x : Span} :
    x ∈ spans text ↔
      ∃ w : Written, w.Greedy ∧ w.StandsAt text x.start x.stop ∧ x.placeholder = w.references := by
  rw [spans, mem_spansFrom_cut]
  constructor
  · rintro ⟨before, w, rest, htext, hw, rfl⟩
    obtain ⟨hf, hg, -⟩ := Written.leading?_spec hw
    exact ⟨w, hg, Written.standsAt_iff.mpr ⟨hf, before, rest, htext, by simp, by simp⟩, rfl⟩
  · rintro ⟨w, hg, hw, hx⟩
    obtain ⟨hf, before, rest, htext, hstart, hstop⟩ := Written.standsAt_iff.mp hw
    refine ⟨before, w, rest, htext, Written.leading?_text_append hf hg rest, ?_⟩
    cases x
    simp_all

theorem exists_mem_spans_iff {text : String} {start stop : Nat} :
    (∃ p, ⟨start, stop, p⟩ ∈ spans text) ↔ ∃ w : Written, w.StandsAt text start stop := by
  constructor
  · rintro ⟨p, hp⟩
    obtain ⟨w, -, hw, -⟩ := mem_spans.mp hp
    exact ⟨w, hw⟩
  · rintro ⟨w, hf, hw⟩
    refine ⟨w.extend.references, mem_spans.mpr ⟨w.extend, hf.greedy_extend, ⟨hf.extend, ?_⟩, rfl⟩⟩
    rwa [w.text_extend]

theorem occursIn_toList_iff {text : String} : occursIn text.toList = true ↔ spans text ≠ [] := by
  rw [occursIn_iff]
  constructor
  · rintro ⟨before, w, rest, htext, hw⟩
    exact List.ne_nil_of_mem (mem_spansFrom_cut.mpr ⟨before, w, rest, htext, hw, rfl⟩)
  · intro h
    obtain ⟨x, hx⟩ := List.exists_mem_of_ne_nil _ h
    obtain ⟨before, w, rest, htext, hw, -⟩ := mem_spansFrom_cut.mp hx
    exact ⟨before, w, rest, htext, hw⟩

/-- A search with going back fits the pattern to a text just where a reported placeholder starts. -/
theorem exists_first?_iff {text before after : String} (h : text = before ++ after) :
    (∃ o, Pattern.placeholder.first? after.toList = some o) ↔
      ∃ x ∈ spans text, x.start = before.utf8ByteSize := by
  have htext : text.toList = before.toList ++ after.toList := by rw [h, String.toList_append]
  simp only [Pattern.first?_placeholder, Option.map_eq_some_iff]
  constructor
  · rintro ⟨-, w, hw, -⟩
    obtain ⟨-, -, rest, hrest⟩ := Written.leading?_spec hw
    rw [hrest] at hw htext
    refine ⟨_, mem_spansFrom_cut.mpr ⟨before.toList, w, rest, htext, hw, rfl⟩, ?_⟩
    rw [Nat.zero_add, byteLength_toList]
  · rintro ⟨x, hx, hstart⟩
    obtain ⟨front, w, rest, hfront, hw, rfl⟩ := mem_spansFrom_cut.mp hx
    rw [Nat.zero_add, ← byteLength_toList] at hstart
    obtain ⟨-, hafter⟩ := append_inj_of_byteLength (hfront.symm.trans htext) hstart
    exact ⟨_, w, hafter ▸ hw, rfl⟩

/-- A scan reports the placeholders of a text in increasing order and without overlap, all of them
and nothing else. Of each it gives the longest main reference and the trimmed entries of the
parameter list that are not blank, as a search with going back would split it whatever follows, and
such a search fits the pattern nowhere else. A text is searched successfully just when something is
reported. -/
theorem spans_exact (text : String) :
    ((spans text).Pairwise fun x y => x.start < x.stop ∧ x.stop ≤ y.start) ∧
    (∀ start stop, (∃ p, ⟨start, stop, p⟩ ∈ spans text) ↔
      ∃ w : Written, w.StandsAt text start stop) ∧
    (∀ (w v : Written) (i j k l : Nat), w.StandsAt text i j → v.StandsAt text k l →
      (i = k ∧ j = l) ∨ j ≤ k ∨ l ≤ i) ∧
    (∀ x ∈ spans text, ∃ w : Written, w.StandsAt text x.start x.stop ∧ w.Greedy ∧
      (∀ rest, Pattern.placeholder.first? (w.text ++ rest) = some ⟨w.text, w.groups, rest⟩) ∧
      x.placeholder.main = w.main ∧
      ∃ entries, (∀ e ∈ entries, ',' ∉ e) ∧ [','].intercalate entries = w.list ∧
        x.placeholder.parameters = (entries.map trim).filter (· ≠ [])) ∧
    (∀ before after : String, text = before ++ after →
      ((∃ o, Pattern.placeholder.first? after.toList = some o) ↔
        ∃ x ∈ spans text, x.start = before.utf8ByteSize)) ∧
    (occursIn text.toList = true ↔ spans text ≠ []) := by
  have hpairwise : (spans text).Pairwise fun x y => x.start < x.stop ∧ x.stop ≤ y.start :=
    pairwise_spansFrom _ _
  refine ⟨hpairwise, fun _ _ => exists_mem_spans_iff, ?_, ?_, fun _ _ => exists_first?_iff,
    occursIn_toList_iff⟩
  · intro w v i j k l hw hv
    obtain ⟨p, hp⟩ := exists_mem_spans_iff.mpr ⟨w, hw⟩
    obtain ⟨q, hq⟩ := exists_mem_spans_iff.mpr ⟨v, hv⟩
    have hapart : (spans text).Pairwise fun x y => x.stop ≤ y.start ∨ y.stop ≤ x.start :=
      hpairwise.imp fun h => Or.inl h.2
    have : Std.Symm fun x y : Span => x.stop ≤ y.start ∨ y.stop ≤ x.start :=
      ⟨fun _ _ h => h.symm⟩
    by_cases heq : (⟨i, j, p⟩ : Span) = ⟨k, l, q⟩
    · simp only [Span.mk.injEq] at heq
      exact Or.inl ⟨heq.1, heq.2.1⟩
    · exact Or.inr (hapart.forall hp hq heq)
  · intro x hx
    obtain ⟨w, hg, hw, href⟩ := mem_spans.mp hx
    refine ⟨w, hw, hg, Pattern.first?_text_append hw.1 hg, by rw [href]; rfl, pieces ',' w.list,
      fun e he => sep_notMem_of_mem_pieces he, intercalate_pieces ',' w.list, by rw [href]; rfl⟩

/-- A text with one placeholder from end to end is that placeholder. -/
theorem exists_written_of_spans {text : String} {q : Placeholder}
    (h : spans text = [⟨0, text.utf8ByteSize, q⟩]) :
    ∃ w : Written, w.Formed ∧ w.references = q ∧ w.text = text.toList ∧
      cut text.toList = [.placeholder w] := by
  obtain ⟨w, hg, hw, href⟩ := mem_spans.mp (h ▸ List.mem_singleton_self _)
  obtain ⟨hf, before, rest, htext, hstart, hstop⟩ := Written.standsAt_iff.mp hw
  obtain rfl : before = [] := eq_nil_of_byteLength hstart
  have hsize : byteLength w.text = byteLength text.toList := by
    rw [← utf8ByteSize_ofList text.toList, String.ofList_toList]
    exact hstop
  obtain rfl : rest = [] := by
    apply eq_nil_of_byteLength
    rw [htext, List.nil_append, byteLength_append] at hsize
    omega
  have hcut := cut_text_append (Written.leading?_text_append hf hg [])
  rw [List.nil_append, List.append_nil] at htext
  rw [List.append_nil, ← htext, cut_nil] at hcut
  exact ⟨w, hf, href.symm, htext.symm, hcut⟩

end Placeholder

end StepTemplate
