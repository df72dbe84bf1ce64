import StepTemplate.Placeholder.Scan
import StepTemplate.Proofs.Text.Stretch

namespace StepTemplate

/-!
# Written placeholders

A text may be split into the parts of a placeholder in several ways, since the characters of a
main reference may stand in a parameter list too. All splits have the same text, and one of them
has the longest main reference; reading a placeholder at the head of a text finds this one
whenever there is any.
-/

namespace Placeholder

open Text

theorem isListChar_of_isMainChar {c : Char} (h : isMainChar c = true) : isListChar c = true := by
  simp [isListChar, h]

theorem ne_of_isListChar {c d : Char} (hc : isListChar c = true) (hd : isListChar d = false) :
    c ≠ d := by
  rintro rfl
  simp [hc] at hd

namespace Written

/-- Each part keeps to its own characters, and there is a main reference. -/
structure Formed (w : Written) : Prop where
  main_ne_nil : w.main ≠ []
  main_chars : ∀ c ∈ w.main, isMainChar c = true
  list_chars : ∀ c ∈ w.list, isListChar c = true

/-- What stands between the braces. -/
def body (w : Written) : List Char :=
  w.main ++ List.replicate w.opening '(' ++ w.list ++ List.replicate w.closing ')'

theorem text_eq_body (w : Written) : w.text = '{' :: '{' :: (w.body ++ ['}', '}']) := rfl

/-- The main reference is the longest one that stands behind the opening braces. -/
def Greedy (w : Written) : Prop :=
  w.main = (w.text.drop 2).takeWhile isMainChar

/-- What stands behind the main reference, followed by `rest`. -/
def behindMain (w : Written) (rest : List Char) : List Char :=
  List.replicate w.opening '(' ++
    (w.list ++ (List.replicate w.closing ')' ++ ('}' :: '}' :: rest)))

theorem text_append (w : Written) (rest : List Char) :
    w.text ++ rest = '{' :: '{' :: (w.main ++ w.behindMain rest) := by
  simp [text, behindMain]

theorem greedy_iff {w : Written} (hw : w.Formed) (rest : List Char) :
    w.Greedy ↔ StopsAt isMainChar (w.behindMain rest) := by
  have hdrop : w.text.drop 2 = w.main ++ w.behindMain [] := by
    simpa using congrArg (List.drop 2) (w.text_append [])
  have hhead : (w.behindMain []).head? = (w.behindMain rest).head? := by
    cases hl : w.list <;> cases ho : w.opening <;> cases hc : w.closing <;>
      simp [behindMain, hl, ho, hc, List.replicate_succ]
  rw [Greedy, hdrop]
  constructor
  · intro h c hc
    rw [List.takeWhile_append_of_pos hw.main_chars] at h
    cases hb : w.behindMain [] with
    | nil => simp [← hhead, hb] at hc
    | cons d s =>
        have hd : d = c := by simpa [← hhead, hb] using hc
        cases hm : isMainChar c with
        | false => rfl
        | true => simp [hb, hd, hm] at h
  · intro h
    refine (takeWhile_append_of_stops hw.main_chars fun c hc => ?_).symm
    exact h c (hhead ▸ hc)

/-- Both braces are missing between the braces of a placeholder. -/
theorem Formed.notMem_body {w : Written} (hw : w.Formed) {c : Char} (hc : isListChar c = false)
    (ho : c ≠ '(') (hcl : c ≠ ')') : c ∉ w.body := by
  simp only [body, List.mem_append, not_or]
  refine ⟨⟨⟨fun h => ?_, fun h => ho (List.eq_of_mem_replicate h)⟩, fun h => ?_⟩,
    fun h => hcl (List.eq_of_mem_replicate h)⟩
  · exact ne_of_isListChar (isListChar_of_isMainChar (hw.main_chars c h)) hc rfl
  · exact ne_of_isListChar (hw.list_chars c h) hc rfl

theorem Formed.count_text {w : Written} (hw : w.Formed) : w.text.count '{' = 2 := by
  have hbody : w.body.count '{' = 0 :=
    List.count_eq_zero.mpr (hw.notMem_body rfl (by decide) (by decide))
  simp [text_eq_body, hbody]

/-- No placeholder starts inside of another one. -/
theorem Formed.prefix_of_append {w v : Written} (hw : w.Formed) {before a b : List Char}
    (hne : before ≠ []) (h : w.text ++ a = before ++ (v.text ++ b)) : w.text <+: before := by
  obtain ⟨t, ht, -⟩ | ⟨t, ht, htv⟩ := List.append_eq_append_iff.mp h
  · exact ⟨t, ht.symm⟩
  · have hbrace : '{' ∈ before := by
      obtain ⟨c, s, rfl⟩ := List.exists_cons_of_ne_nil hne
      have hc : c = '{' := by simpa [text_eq_body] using (congrArg List.head? ht).symm
      simp [hc]
    rw [text_append, List.cons_eq_append_iff] at htv
    obtain ⟨rfl, -⟩ | ⟨t', rfl, ht'⟩ := htv
    · exact ⟨[], by simpa using ht⟩
    · -- a second opening brace inside would be the third one of `w`
      have hcount := hw.count_text
      rw [ht, List.count_append, List.count_cons_self] at hcount
      have hbefore : 0 < before.count '{' := List.count_pos_iff.mpr hbrace
      have hlast : w.text.getLast? = some '}' := by
        simp [text_eq_body, List.getLast?_cons]
      cases t' with
      | nil => simp [ht] at hlast
      | cons d t =>
          obtain rfl : '{' = d := by simpa using congrArg List.head? ht'
          rw [List.count_cons_self] at hcount
          omega

theorem stopsAt_list (w : Written) (rest : List Char) :
    StopsAt isListChar (List.replicate w.closing ')' ++ ('}' :: '}' :: rest)) :=
  (stopsAt_replicate rfl _).append (stopsAt_cons.mpr rfl)

theorem Formed.stopsAt_opening {w : Written} (hw : w.Formed) (rest : List Char) :
    StopsAt (· == '(') (w.list ++ (List.replicate w.closing ')' ++ ('}' :: '}' :: rest))) := by
  have hlist : ∀ c ∈ w.list, (c == '(') = false := fun c hc => by
    simpa using ne_of_isListChar (hw.list_chars c hc) rfl
  refine (stopsAt_of_forall hlist).append ?_
  exact (stopsAt_replicate rfl _).append (stopsAt_cons.mpr rfl)

/-- A greedy placeholder at the head of a text is read from it. -/
theorem leading?_text_append {w : Written} (hw : w.Formed) (hg : w.Greedy) (rest : List Char) :
    leading? (w.text ++ rest) = some w := by
  have hmain := (greedy_iff hw rest).mp hg
  have hopen : ∀ c ∈ List.replicate w.opening '(', (c == '(') = true := by simp
  have hclose : ∀ c ∈ List.replicate w.closing ')', (c == ')') = true := by simp
  have hlist := hw.stopsAt_opening rest
  have hafter := w.stopsAt_list rest
  have hend : StopsAt (· == ')') ('}' :: '}' :: rest) := by simp
  rw [text_append, leading?]
  simp only [takeWhile_append_of_stops hw.main_chars hmain,
    dropWhile_append_of_stops hw.main_chars hmain]
  simp only [behindMain, takeWhile_append_of_stops hopen hlist,
    dropWhile_append_of_stops hopen hlist, takeWhile_append_of_stops hw.list_chars hafter,
    dropWhile_append_of_stops hw.list_chars hafter, takeWhile_append_of_stops hclose hend,
    dropWhile_append_of_stops hclose hend]
  simp [hw.main_ne_nil, List.isPrefixOf]

/-- What is read at the head of a text stands there, is formed and has the longest main
reference. -/
theorem leading?_spec {s : List Char} {w : Written} (h : leading? s = some w) :
    w.Formed ∧ w.Greedy ∧ ∃ rest, s = w.text ++ rest := by
  unfold leading? at h
  split at h
  · next s =>
    simp only at h
    split at h
    · next hcond =>
      simp only [Bool.and_eq_true, bne_iff_ne, ne_eq, List.isPrefixOf_iff_prefix] at hcond
      obtain ⟨hmain, rest, hrest⟩ := hcond
      have heq := Option.some.inj h
      have hformed : w.Formed := by
        rw [← heq]
        refine ⟨hmain, ?_, ?_⟩
        · intro c hc
          exact List.mem_takeWhile_imp hc
        · intro c hc
          exact List.mem_takeWhile_imp hc
      have hbehind : w.behindMain rest = s.dropWhile isMainChar := by
        rw [← heq, behindMain, ← takeWhile_beq_eq_replicate, ← takeWhile_beq_eq_replicate,
          show '}' :: '}' :: rest = ['}', '}'] ++ rest from rfl, hrest]
        simp only [List.takeWhile_append_dropWhile]
      refine ⟨hformed, (greedy_iff hformed rest).mpr ?_, rest, ?_⟩
      · rw [hbehind]
        exact stopsAt_dropWhile isMainChar s
      · rw [text_append, hbehind, ← heq, List.takeWhile_append_dropWhile]
    · simp at h
  · simp at h

/-- The split of the same text with the longest main reference: what stands directly behind the
main reference and could belong to it moves over from the list. -/
def extend (w : Written) : Written :=
  if w.opening = 0 then
    { w with main := w.main ++ w.list.takeWhile isMainChar, list := w.list.dropWhile isMainChar }
  else w

@[simp] theorem text_extend (w : Written) : w.extend.text = w.text := by
  by_cases ho : w.opening = 0
  · rw [extend, if_pos ho]
    simp only [text, ho, List.append_assoc, List.replicate_zero, List.nil_append]
    rw [← List.append_assoc (w.list.takeWhile isMainChar), List.takeWhile_append_dropWhile]
  · rw [extend, if_neg ho]

theorem Formed.extend {w : Written} (hw : w.Formed) : w.extend.Formed := by
  by_cases ho : w.opening = 0
  · rw [Written.extend, if_pos ho]
    refine ⟨by simp [hw.main_ne_nil], ?_, fun c hc => ?_⟩
    · intro c hc
      rcases List.mem_append.mp hc with hc | hc
      · exact hw.main_chars c hc
      · exact List.mem_takeWhile_imp hc
    · exact hw.list_chars c ((List.dropWhile_suffix _).subset hc)
  · rwa [Written.extend, if_neg ho]

theorem Formed.greedy_extend {w : Written} (hw : w.Formed) : w.extend.Greedy := by
  rw [greedy_iff hw.extend []]
  by_cases ho : w.opening = 0
  · have hend : StopsAt isMainChar (List.replicate w.closing ')' ++ ['}', '}']) :=
      (stopsAt_replicate rfl _).append (stopsAt_cons.mpr rfl)
    rw [Written.extend, if_pos ho, behindMain, ho]
    exact (stopsAt_dropWhile isMainChar w.list).append hend
  · obtain ⟨n, hn⟩ := Nat.exists_eq_succ_of_ne_zero ho
    rw [Written.extend, if_neg ho, behindMain, hn, List.replicate_succ]
    exact stopsAt_cons.mpr rfl

/-- A placeholder stands at the head of a text just when one is read there, however its text is
split. -/
theorem exists_formed_iff {s : List Char} {t : List Char} :
    (∃ w : Written, w.Formed ∧ w.text = t ∧ t <+: s) ↔ ∃ w, leading? s = some w ∧ w.text = t := by
  constructor
  · rintro ⟨w, hw, rfl, rest, rfl⟩
    refine ⟨w.extend, ?_, w.text_extend⟩
    rw [← w.text_extend]
    exact leading?_text_append hw.extend hw.greedy_extend rest
  · rintro ⟨w, hw, rfl⟩
    obtain ⟨hf, -, rest, rfl⟩ := leading?_spec hw
    exact ⟨w, hf, rfl, List.prefix_append _ _⟩

end Written

end Placeholder

end StepTemplate
