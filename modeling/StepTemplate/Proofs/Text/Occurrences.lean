import Mathlib.Data.List.Basic
import StepTemplate.Proofs.Text.Stretch
import StepTemplate.Text.Word

namespace StepTemplate

/-!
# The occurrences that are replaced

A search meets the occurrences of its needle one by one, and each of them is replaced or kept as a
whole. A character that is missing in the needle divides a text: no occurrence goes across it, so
the two sides are searched apart, and only the neighbours of an occurrence may tell of it.
-/

namespace Text

variable {accept : Option Char → Option Char → Bool} {needle value s : List Char}
  {before before' : Option Char} {c : Char}

theorem getLast?_cons_or (c : Char) (s : List Char) (before : Option Char) :
    (c :: s).getLast?.or before = s.getLast?.or (some c) := by
  rw [List.getLast?_cons]
  cases s.getLast? <;> rfl

/-! ## One step of a search -/

theorem replaceWhere_of_ne_nil (hneedle : needle ≠ []) (s : List Char) :
    replaceWhere accept needle value s = replaceFrom accept needle value none 0 s :=
  if_neg hneedle

theorem replaceFrom_append_skip (accept : Option Char → Option Char → Bool) (t s : List Char) :
    replaceFrom accept needle value before t.length (t ++ s) =
      replaceFrom accept needle value (t.getLast?.or before) 0 s := by
  induction t generalizing before with
  | nil => rfl
  | cons c t ih =>
      rw [List.length_cons, List.cons_append, replaceFrom, ih, getLast?_cons_or]

/-- An occurrence is dealt with as a whole, whether it is replaced or not. -/
theorem replaceFrom_occurrence (accept : Option Char → Option Char → Bool) (hneedle : needle ≠ [])
    (s : List Char) :
    replaceFrom accept needle value before 0 (needle ++ s) =
      (if accept before s.head? then value else needle) ++
        replaceFrom accept needle value needle.getLast? 0 s := by
  obtain ⟨c, t, rfl⟩ := List.exists_cons_of_ne_nil hneedle
  have hocc : (c :: t).isPrefixOf (c :: (t ++ s)) = true := by
    rw [List.isPrefixOf_iff_prefix]
    exact List.prefix_append (c :: t) s
  have hdrop : (c :: (t ++ s)).drop (c :: t).length = s := by simp
  rw [List.cons_append, replaceFrom, if_pos hocc, hdrop, List.length_cons, Nat.add_sub_cancel,
    replaceFrom_append_skip, ← getLast?_cons_or c t none, Option.or_none]

theorem replaceFrom_cons (accept : Option Char → Option Char → Bool)
    (h : ¬ needle <+: c :: s) :
    replaceFrom accept needle value before 0 (c :: s) =
      c :: replaceFrom accept needle value (some c) 0 s := by
  rw [replaceFrom, if_neg]
  simpa [List.isPrefixOf_iff_prefix] using h

/-- Induction along the occurrences of a needle and the characters between them. -/
@[elab_as_elim] theorem occurrence_induction {motive : List Char → Prop} (hneedle : needle ≠ [])
    (nil : motive []) (occurrence : ∀ rest, motive rest → motive (needle ++ rest))
    (char : ∀ c s, ¬ needle <+: c :: s → motive s → motive (c :: s)) (s : List Char) :
    motive s := by
  induction hn : s.length using Nat.strongRecOn generalizing s with
  | ind n ih =>
      subst hn
      by_cases hocc : needle <+: s
      · obtain ⟨rest, rfl⟩ := hocc
        refine occurrence rest (ih rest.length ?_ rest rfl)
        have hpos := List.length_pos_iff.mpr hneedle
        rw [List.length_append]
        omega
      · cases s with
        | nil => exact nil
        | cons c s => exact char c s hocc (ih s.length (by simp) s rfl)

theorem replaceFrom_congr_before (h : ∀ after, accept before after = accept before' after) :
    replaceFrom accept needle value before 0 s = replaceFrom accept needle value before' 0 s := by
  cases s with
  | nil => rfl
  | cons c s => rw [replaceFrom, replaceFrom, h]

theorem head?_replaceFrom (hneedle : needle ≠ []) (hs : ∀ c ∈ s.head?, needle.head? ≠ some c) :
    (replaceFrom accept needle value before 0 s).head? = s.head? := by
  cases s with
  | nil => rfl
  | cons c s =>
      have hocc : ¬ needle <+: c :: s := by
        intro hocc
        obtain ⟨d, t, rfl⟩ := List.exists_cons_of_ne_nil hneedle
        obtain ⟨rfl, -⟩ := List.cons_prefix_cons.mp hocc
        simp at hs
      rw [replaceFrom_cons _ hocc]
      rfl

theorem replaceFrom_append_of_notMem (accept : Option Char → Option Char → Bool)
    (value : List Char) (before : Option Char) {d : Char} {a : List Char} (t s : List Char)
    (ha : d ∉ a) :
    replaceFrom accept (d :: t) value before 0 (a ++ s) =
      a ++ replaceFrom accept (d :: t) value (a.getLast?.or before) 0 s := by
  induction a generalizing before with
  | nil => rfl
  | cons c a ih =>
      rw [List.mem_cons, not_or] at ha
      have hocc : ¬ d :: t <+: c :: (a ++ s) :=
        fun hocc => ha.1 (List.cons_prefix_cons.mp hocc).1
      rw [List.cons_append, replaceFrom_cons _ hocc, ih _ ha.2, getLast?_cons_or, List.cons_append]

theorem replaceFrom_of_notMem (accept : Option Char → Option Char → Bool) (value : List Char)
    (before : Option Char) {d : Char} {a : List Char} (t : List Char) (ha : d ∉ a) :
    replaceFrom accept (d :: t) value before 0 a = a := by
  have h := replaceFrom_append_of_notMem accept value before t [] ha
  rwa [List.append_nil, replaceFrom_nil, List.append_nil] at h

theorem replaceWhere_once {d : Char} (value : List Char) {a t b : List Char} (ha : d ∉ a)
    (hb : d ∉ b) (hacc : accept a.getLast? b.head? = true) :
    replaceWhere accept (d :: t) value (a ++ (d :: t ++ b)) = a ++ (value ++ b) := by
  rw [replaceWhere_of_ne_nil (List.cons_ne_nil d t), replaceFrom_append_of_notMem _ _ _ _ _ ha,
    Option.or_none, replaceFrom_occurrence _ (List.cons_ne_nil d t), if_pos hacc,
    replaceFrom_of_notMem _ _ _ _ hb]

theorem replaceAll_once (d : Char) (value a t b : List Char) (ha : d ∉ a)
    (hb : d ∉ b) : replaceAll (d :: t) value (a ++ (d :: t ++ b)) = a ++ (value ++ b) :=
  replaceWhere_once value ha hb rfl

/-! ## The two sides of a character -/

variable {sep : Char} {rest : List Char}

theorem prefix_of_prefix_append_cons (hsep : sep ∉ needle) (h : needle <+: s ++ sep :: rest) :
    needle <+: s := by
  obtain ⟨t, ht⟩ := h
  obtain ⟨u, rfl, -⟩ | ⟨u, rfl, hu⟩ := List.append_eq_append_iff.mp ht
  · exact List.prefix_append needle u
  · cases u with
    | nil => simp
    | cons d u =>
        obtain ⟨rfl, -⟩ := List.cons_eq_cons.mp hu
        simp at hsep

/-- A character that is missing in the needle divides a search: in front of it, an occurrence at
the end has this character behind it. -/
theorem replaceFrom_append_cons (hneedle : needle ≠ []) (hsep : sep ∉ needle) :
    replaceFrom accept needle value before 0 (s ++ sep :: rest) =
      replaceFrom (fun b a => accept b (a.or (some sep))) needle value before 0 s ++
        sep :: replaceFrom accept needle value (some sep) 0 rest := by
  induction s using occurrence_induction hneedle generalizing before with
  | nil =>
      have hocc : ¬ needle <+: sep :: rest := fun h =>
        hneedle (List.prefix_nil.mp (prefix_of_prefix_append_cons (s := []) hsep h))
      rw [List.nil_append, replaceFrom_cons _ hocc, replaceFrom_nil, List.nil_append]
  | occurrence s ih =>
      have hhead : (s ++ sep :: rest).head? = s.head?.or (some sep) := by cases s <;> rfl
      rw [List.append_assoc, replaceFrom_occurrence _ hneedle, replaceFrom_occurrence _ hneedle, ih,
        hhead, List.append_assoc]
  | char c s hocc ih =>
      have hocc' : ¬ needle <+: c :: (s ++ sep :: rest) := fun h =>
        hocc (prefix_of_prefix_append_cons (s := c :: s) hsep h)
      rw [List.cons_append, replaceFrom_cons _ hocc', replaceFrom_cons _ hocc, ih, List.cons_append]

/-- To an occurrence next to this character it is as if the text ended there. -/
structure IsBorder (accept : Option Char → Option Char → Bool) (c : Char) : Prop where
  after : ∀ before, accept before (some c) = accept before none
  before : ∀ after, accept (some c) after = accept none after

theorem replaceFrom_append_border (hneedle : needle ≠ []) (hsep : sep ∉ needle)
    (hafter : ∀ before, accept before (some sep) = accept before none) :
    replaceFrom accept needle value before 0 (s ++ sep :: rest) =
      replaceFrom accept needle value before 0 s ++
        sep :: replaceFrom accept needle value (some sep) 0 rest := by
  have hsame : (fun b a => accept b (a.or (some sep))) = accept := by
    funext b a
    cases a with
    | none => exact hafter b
    | some a => rfl
  rw [replaceFrom_append_cons hneedle hsep, hsame]

theorem replaceFrom_append_borders {seps : List Char} (hneedle : needle ≠ []) (hne : seps ≠ [])
    (hseps : ∀ c ∈ seps, c ∉ needle ∧ IsBorder accept c) :
    replaceFrom accept needle value before 0 (s ++ (seps ++ rest)) =
      replaceFrom accept needle value before 0 s ++
        (seps ++ replaceFrom accept needle value none 0 rest) := by
  obtain ⟨c, cs, rfl⟩ := List.exists_cons_of_ne_nil hne
  obtain ⟨d, t, rfl⟩ := List.exists_cons_of_ne_nil hneedle
  obtain ⟨hc, hborder⟩ := hseps c List.mem_cons_self
  have hcs : d ∉ cs := fun hd => (hseps d (List.mem_cons_of_mem c hd)).1 List.mem_cons_self
  have hlast : ∀ after, accept (cs.getLast?.or (some c)) after = accept none after := by
    intro after
    rw [← getLast?_cons_or c cs none, Option.or_none, List.getLast?_eq_some_getLast hne]
    exact (hseps _ (List.getLast_mem hne)).2.before after
  rw [List.cons_append, replaceFrom_append_border hneedle hc hborder.after,
    replaceFrom_append_of_notMem _ _ _ _ _ hcs, replaceFrom_congr_before hlast, List.cons_append]

/-- A text in pieces, with borders between them that are missing in the needle, is searched piece
by piece. -/
theorem replaceWhere_intercalate (value : List Char) {seps : List Char} (hneedle : needle ≠ [])
    (hne : seps ≠ []) (hseps : ∀ c ∈ seps, c ∉ needle ∧ IsBorder accept c) (ps : List (List Char)) :
    replaceWhere accept needle value (seps.intercalate ps) =
      seps.intercalate (ps.map (replaceWhere accept needle value)) := by
  induction ps with
  | nil => simp [replaceWhere_of_ne_nil hneedle]
  | cons p ps ih =>
      cases ps with
      | nil => simp
      | cons q ps =>
          rw [replaceWhere_of_ne_nil hneedle] at ih
          rw [replaceWhere_of_ne_nil hneedle, List.intercalate_cons_cons, List.append_assoc,
            replaceFrom_append_borders hneedle hne hseps, ih, List.map_cons, List.map_cons,
            List.map_cons, List.intercalate_cons_cons, List.append_assoc,
            replaceWhere_of_ne_nil hneedle p]

/-! ## Where a needle stands -/

/-- Somewhere in a text the needle occurs between accepted neighbours. -/
def Stands (accept : Option Char → Option Char → Bool) (needle s : List Char) : Prop :=
  ∃ a b, s = a ++ (needle ++ b) ∧ accept a.getLast? b.head? = true

theorem stands_iff_exists_lt : Stands accept needle s ↔ ∃ i < s.length + 1,
    (s.drop i).take needle.length = needle ∧
      accept (s.take i).getLast? (s.drop (i + needle.length)).head? = true := by
  constructor
  · rintro ⟨a, b, rfl, hacc⟩
    refine ⟨a.length, ?_, ?_, ?_⟩
    · rw [List.length_append]
      omega
    · rw [List.drop_left, List.take_left]
    · rwa [List.take_left, ← List.drop_drop, List.drop_left, List.drop_left]
  · rintro ⟨i, -, htake, hacc⟩
    rw [← List.drop_drop] at hacc
    refine ⟨_, _, ?_, hacc⟩
    nth_rewrite 1 [← htake]
    rw [List.take_append_drop, List.take_append_drop]

instance (accept : Option Char → Option Char → Bool) (needle s : List Char) :
    Decidable (Stands accept needle s) :=
  decidable_of_iff _ stands_iff_exists_lt.symm

theorem replaceFrom_eq_self (accept : Option Char → Option Char → Bool) (value : List Char)
    (before : Option Char) (hneedle : needle ≠ [])
    (h : ∀ a b, s = a ++ (needle ++ b) → accept (a.getLast?.or before) b.head? = false) :
    replaceFrom accept needle value before 0 s = s := by
  induction s using occurrence_induction hneedle generalizing before with
  | nil => exact replaceFrom_nil ..
  | occurrence s ih =>
      have hkeep : accept before s.head? = false := h [] s rfl
      rw [replaceFrom_occurrence _ hneedle, hkeep, if_neg Bool.false_ne_true, ih]
      intro a b hs
      have hab := h (needle ++ a) b (by rw [hs, List.append_assoc])
      rwa [List.getLast?_append, Option.or_assoc, List.getLast?_eq_some_getLast hneedle,
        Option.some_or, ← List.getLast?_eq_some_getLast hneedle] at hab
  | char c s hocc ih =>
      rw [replaceFrom_cons _ hocc, ih]
      intro a b hs
      have hab := h (c :: a) b (by rw [hs, List.cons_append])
      rwa [getLast?_cons_or] at hab

/-- A needle is not found where one of its characters is missing. -/
theorem replaceFrom_of_missing (accept : Option Char → Option Char → Bool) (value : List Char)
    (before : Option Char) (hc : c ∈ needle) (hs : c ∉ s) :
    replaceFrom accept needle value before 0 s = s := by
  apply replaceFrom_eq_self accept value before (List.ne_nil_of_mem hc)
  rintro a b rfl
  simp [hc] at hs

theorem replaceWhere_eq_self (value : List Char) (h : ¬ Stands accept needle s) :
    replaceWhere accept needle value s = s := by
  rw [replaceWhere]
  split
  · rfl
  · next hneedle =>
    apply replaceFrom_eq_self accept value none hneedle
    intro a b hs
    rw [Option.or_none, ← Bool.not_eq_true]
    exact fun hacc => h ⟨a, b, hs, hacc⟩

theorem replaceFrom_same (hneedle : needle ≠ []) :
    replaceFrom accept needle needle before 0 s = s := by
  induction s using occurrence_induction hneedle generalizing before with
  | nil => exact replaceFrom_nil ..
  | occurrence s ih => rw [replaceFrom_occurrence _ hneedle, ite_self, ih]
  | char c s hocc ih => rw [replaceFrom_cons _ hocc, ih]

theorem length_replaceFrom_le (accept : Option Char → Option Char → Bool) (before : Option Char)
    (s : List Char) (hneedle : needle ≠ []) (hlen : value.length ≤ needle.length) :
    (replaceFrom accept needle value before 0 s).length ≤ s.length := by
  induction s using occurrence_induction hneedle generalizing before with
  | nil => simp
  | occurrence s ih =>
      have hrest := ih needle.getLast?
      rw [replaceFrom_occurrence _ hneedle]
      split <;> simp only [List.length_append] <;> omega
  | char c s hocc ih =>
      rw [replaceFrom_cons _ hocc]
      exact Nat.succ_le_succ (ih (some c))

theorem le_length_replaceFrom (accept : Option Char → Option Char → Bool) (before : Option Char)
    (s : List Char) (hneedle : needle ≠ []) (hlen : needle.length ≤ value.length) :
    s.length ≤ (replaceFrom accept needle value before 0 s).length := by
  induction s using occurrence_induction hneedle generalizing before with
  | nil => simp
  | occurrence s ih =>
      have hrest := ih needle.getLast?
      rw [replaceFrom_occurrence _ hneedle]
      split <;> simp only [List.length_append] <;> omega
  | char c s hocc ih =>
      rw [replaceFrom_cons _ hocc]
      exact Nat.succ_le_succ (ih (some c))

/-- If no character of the needle is accepted in front of it, then an occurrence that stands is
not missed, and what is in front of it is searched by itself. -/
theorem exists_replaceFrom_eq (value : List Char) {a b : List Char} (hneedle : needle ≠ [])
    (hfront : ∀ c after, accept (some c) after = true → c ∉ needle)
    (hacc : accept a.getLast? b.head? = true) :
    ∃ (accept' : Option Char → Option Char → Bool) (a' t : List Char), a = a' ++ t ∧
      replaceFrom accept needle value none 0 (a ++ (needle ++ b)) =
        replaceFrom accept' needle value none 0 a' ++ (t ++ (value ++
          replaceFrom accept needle value needle.getLast? 0 b)) := by
  obtain rfl | ⟨a, c, rfl⟩ := List.eq_nil_or_concat' a
  · refine ⟨accept, [], [], rfl, ?_⟩
    have hacc' : accept none b.head? = true := hacc
    rw [List.nil_append, replaceFrom_occurrence _ hneedle, if_pos hacc', replaceFrom_nil]
    rfl
  · rw [List.getLast?_append, List.getLast?_singleton, Option.some_or] at hacc
    refine ⟨fun b a => accept b (a.or (some c)), a, [c], rfl, ?_⟩
    rw [List.append_assoc, List.singleton_append,
      replaceFrom_append_cons hneedle (hfront c _ hacc), replaceFrom_occurrence _ hneedle,
      if_pos hacc]
    rfl

/-- A text is kept as it is just when the needle does not stand in it, or is replaced by itself. -/
theorem replaceWhere_eq_self_iff (hneedle : needle ≠ [])
    (hfront : ∀ c after, accept (some c) after = true → c ∉ needle) :
    replaceWhere accept needle value s = s ↔ ¬ Stands accept needle s ∨ value = needle := by
  constructor
  · intro hself
    rw [or_iff_not_imp_left, not_not]
    rintro ⟨a, b, rfl, hacc⟩
    obtain ⟨accept', a', t, rfl, heq⟩ := exists_replaceFrom_eq value hneedle hfront hacc
    rw [replaceWhere_of_ne_nil hneedle, heq] at hself
    -- what is before and what is behind get shorter, or longer, along with the occurrence
    have hlen := congrArg List.length hself
    simp only [List.length_append] at hlen
    have hsame : (replaceFrom accept' needle value none 0 a').length = a'.length ∧
        value.length = needle.length := by
      rcases Nat.le_total value.length needle.length with h | h
      · have ha := length_replaceFrom_le accept' none a' hneedle h
        have hb := length_replaceFrom_le accept needle.getLast? b hneedle h
        omega
      · have ha := le_length_replaceFrom accept' none a' hneedle h
        have hb := le_length_replaceFrom accept needle.getLast? b hneedle h
        omega
    rw [List.append_assoc] at hself
    have hbehind := (List.append_inj hself hsame.1).2
    exact (List.append_inj (List.append_cancel_left hbehind) hsame.2).1
  · rintro (h | rfl)
    · exact replaceWhere_eq_self value h
    · rw [replaceWhere_of_ne_nil hneedle, replaceFrom_same hneedle]

end Text

end StepTemplate
