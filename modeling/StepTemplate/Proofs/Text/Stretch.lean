import Mathlib.Data.List.TakeWhile
import StepTemplate.Text.Blank

namespace StepTemplate

/-!
# The longest stretch of a class at the head of a text

A text `a ++ b` with `a` inside a class and `b` not going on in it is cut between `a` and `b`.
-/

namespace Text

variable {α : Type} {p : α → Bool} {a b : List α}

/-- A text that does not go on in class `p`. -/
def StopsAt (p : α → Bool) (s : List α) : Prop :=
  ∀ c ∈ s.head?, p c = false

@[simp] theorem stopsAt_nil : StopsAt p [] := by
  simp [StopsAt]

@[simp] theorem stopsAt_cons {c : α} {s : List α} : StopsAt p (c :: s) ↔ p c = false := by
  simp [StopsAt]

theorem stopsAt_of_forall (ha : ∀ c ∈ a, p c = false) : StopsAt p a :=
  fun c hc => ha c (List.mem_of_mem_head? hc)

theorem stopsAt_replicate {x : α} (hx : p x = false) (n : Nat) :
    StopsAt p (List.replicate n x) :=
  stopsAt_of_forall fun _ hc => List.eq_of_mem_replicate hc ▸ hx

theorem StopsAt.append (ha : StopsAt p a) (hb : StopsAt p b) : StopsAt p (a ++ b) := by
  cases a with
  | nil => exact hb
  | cons c a => simpa using ha

theorem StopsAt.append_of_ne_nil (ha : StopsAt p a) (hne : a ≠ []) : StopsAt p (a ++ b) := by
  cases a with
  | nil => exact absurd rfl hne
  | cons c a => simpa using ha

theorem StopsAt.of_append (h : StopsAt p (a ++ b)) : StopsAt p a := by
  cases a with
  | nil => exact stopsAt_nil
  | cons c a => simpa using h

theorem not_stopsAt_of_forall (hne : a ≠ []) (ha : ∀ c ∈ a, p c = true) : ¬ StopsAt p a := by
  obtain ⟨c, t, rfl⟩ := List.exists_cons_of_ne_nil hne
  simp [ha c (by simp)]

theorem stopsAt_dropWhile (p : α → Bool) (s : List α) : StopsAt p (s.dropWhile p) := by
  intro c hc
  have h := List.head?_dropWhile_not p s
  rw [Option.mem_def.mp hc] at h
  simpa using h

theorem takeWhile_eq_nil_of_stops (hb : StopsAt p b) : b.takeWhile p = [] := by
  cases b with
  | nil => rfl
  | cons c b => simp [stopsAt_cons.mp hb]

theorem dropWhile_eq_self_of_stops (hb : StopsAt p b) : b.dropWhile p = b := by
  cases b with
  | nil => rfl
  | cons c b => simp [stopsAt_cons.mp hb]

theorem takeWhile_append_of_stops (ha : ∀ c ∈ a, p c = true) (hb : StopsAt p b) :
    (a ++ b).takeWhile p = a := by
  rw [List.takeWhile_append_of_pos ha, takeWhile_eq_nil_of_stops hb, List.append_nil]

theorem dropWhile_append_of_stops (ha : ∀ c ∈ a, p c = true) (hb : StopsAt p b) :
    (a ++ b).dropWhile p = b := by
  rw [List.dropWhile_append_of_pos ha, dropWhile_eq_self_of_stops hb]

/-- A text is cut at the end of a stretch in one way only. -/
theorem append_inj_of_stops {a' b' : List α} (ha : ∀ c ∈ a, p c = true) (hb : StopsAt p b)
    (ha' : ∀ c ∈ a', p c = true) (hb' : StopsAt p b') (h : a ++ b = a' ++ b') :
    a = a' ∧ b = b' := by
  constructor
  · rw [← takeWhile_append_of_stops ha hb, h, takeWhile_append_of_stops ha' hb']
  · rw [← dropWhile_append_of_stops ha hb, h, dropWhile_append_of_stops ha' hb']

/-- A stretch of one character is that character repeated. -/
theorem takeWhile_beq_eq_replicate [DecidableEq α] (x : α) (s : List α) :
    s.takeWhile (· == x) = List.replicate (s.takeWhile (· == x)).length x := by
  refine List.eq_replicate_iff.mpr ⟨rfl, ?_⟩
  intro c hc
  simpa using List.mem_takeWhile_imp hc

/-! ## Stripping both ends -/

section

variable {p : Char → Bool} {s : List Char} {c : Char}

theorem strip_prefix_dropWhile (p : Char → Bool) (s : List Char) : strip p s <+: s.dropWhile p := by
  have h := List.dropWhile_suffix (l := (s.dropWhile p).reverse) p
  rw [strip, ← List.reverse_suffix, List.reverse_reverse]
  exact h

theorem stopsAt_strip (p : Char → Bool) (s : List Char) : StopsAt p (strip p s) := by
  obtain ⟨t, ht⟩ := strip_prefix_dropWhile p s
  have h := stopsAt_dropWhile p s
  rw [← ht] at h
  exact h.of_append

theorem stopsAt_reverse_strip (p : Char → Bool) (s : List Char) :
    StopsAt p (strip p s).reverse := by
  rw [strip, List.reverse_reverse]
  exact stopsAt_dropWhile p _

theorem mem_of_mem_strip (h : c ∈ strip p s) : c ∈ s :=
  (List.dropWhile_suffix p).subset ((strip_prefix_dropWhile p s).subset h)

theorem mem_dropWhile (hc : p c = false) (h : c ∈ s) : c ∈ s.dropWhile p := by
  rw [← List.takeWhile_append_dropWhile (p := p) (l := s), List.mem_append] at h
  rcases h with h | h
  · rw [List.mem_takeWhile_imp h] at hc
    simp at hc
  · exact h

theorem mem_strip (hc : p c = false) (h : c ∈ s) : c ∈ strip p s := by
  apply List.mem_reverse.mpr
  apply mem_dropWhile hc
  exact List.mem_reverse.mpr (mem_dropWhile hc h)

theorem exists_strip_eq (p : Char → Bool) (s : List Char) :
    ∃ a b, s = a ++ (strip p s ++ b) ∧ (∀ c ∈ a, p c = true) ∧ ∀ c ∈ b, p c = true := by
  refine ⟨s.takeWhile p, ((s.dropWhile p).reverse.takeWhile p).reverse, ?_, ?_, ?_⟩
  · rw [strip, ← List.reverse_append, List.takeWhile_append_dropWhile, List.reverse_reverse,
      List.takeWhile_append_dropWhile]
  · exact fun c hc => List.mem_takeWhile_imp hc
  · exact fun c hc => List.mem_takeWhile_imp (List.mem_reverse.mp hc)

theorem strip_cons (hc : p c = true) (s : List Char) : strip p (c :: s) = strip p s := by
  rw [strip, strip, List.dropWhile_cons_of_pos hc]

theorem strip_of_notMem (h : c ∉ s) : strip (· == c) s = s := by
  have hne : ∀ d ∈ s, (d == c) = false := by
    intro d hd
    rw [beq_eq_false_iff_ne]
    rintro rfl
    exact h hd
  apply strip_eq_self
  · exact fun d hd => hne d (List.mem_of_mem_head? hd)
  · exact fun d hd => hne d (List.mem_of_mem_getLast? hd)

/-- What is put around a text at both ends is stripped again. -/
theorem strip_enclosed {a b : List Char} (ha : ∀ c ∈ a, p c = true) (hb : ∀ c ∈ b, p c = true)
    (hs : StopsAt p s) (hlast : StopsAt p s.reverse) (hne : s ≠ []) :
    strip p (a ++ s ++ b) = s := by
  have hb' : ∀ c ∈ b.reverse, p c = true := fun c hc => hb c (List.mem_reverse.mp hc)
  rw [strip, List.append_assoc, dropWhile_append_of_stops ha (hs.append_of_ne_nil hne),
    List.reverse_append, dropWhile_append_of_stops hb' hlast, List.reverse_reverse]

end

end Text

end StepTemplate
