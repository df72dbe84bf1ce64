import StepTemplate.Proofs.Placeholder.Written

namespace StepTemplate

/-!
# The pattern of a placeholder

A pattern that fits the head of a text in several ways has its outcomes in order of preference: a
repetition would rather go on, and an optional part would rather be there. A search takes the
first outcome, so it goes back from a preferred way just when nothing fits behind it. For the
pattern of a placeholder it never has to: the first outcome is the greedy reading.
-/

namespace Placeholder

open Text

/-- A pattern for the head of a text. -/
inductive Pattern where
  /-- One character of a class. -/
  | one (p : Char → Bool)
  /-- Any number of characters of a class. -/
  | many (p : Char → Bool)
  | both (a b : Pattern)
  | optional (a : Pattern)
  /-- A part whose text is kept under a number. -/
  | group (i : Nat) (a : Pattern)

/-- A way in which a pattern fits: what it takes, what its groups keep and what it leaves. -/
structure Outcome where
  taken : List Char
  groups : List (Nat × List Char)
  rest : List Char
  deriving DecidableEq, Repr

/-- An outcome followed by one on the text it leaves. -/
def Outcome.followedBy (x y : Outcome) : Outcome :=
  ⟨x.taken ++ y.taken, x.groups ++ y.groups, y.rest⟩

namespace Pattern

instance : Append Pattern := ⟨both⟩

/-- The ways to take characters of a class, the longest first. -/
def stretches (p : Char → Bool) : List Char → List Outcome
  | [] => [⟨[], [], []⟩]
  | c :: cs =>
    if p c then
      (stretches p cs).map (fun x => { x with taken := c :: x.taken }) ++ [⟨[], [], c :: cs⟩]
    else [⟨[], [], c :: cs⟩]

/-- The ways in which a pattern fits the head of a text, in order of preference. -/
def outcomes : Pattern → List Char → List Outcome
  | one _, [] => []
  | one p, c :: cs => if p c then [⟨[c], [], cs⟩] else []
  | many p, s => stretches p s
  | both a b, s => (a.outcomes s).flatMap fun x => (b.outcomes x.rest).map x.followedBy
  | optional a, s => a.outcomes s ++ [⟨[], [], s⟩]
  | group i a, s => (a.outcomes s).map fun x => { x with groups := (i, x.taken) :: x.groups }

/-- The outcome that a search with going back arrives at. -/
def first? (a : Pattern) (s : List Char) : Option Outcome :=
  (a.outcomes s).head?

/-- One or more characters of a class. -/
def atLeastOne (p : Char → Bool) : Pattern :=
  one p ++ many p

/-- The pattern of a placeholder. Its first group is the main reference, its second one the
parameter list, which may be missing. -/
def placeholder : Pattern :=
  one (· == '{') ++ one (· == '{') ++ group 1 (atLeastOne isMainChar) ++ many (· == '(') ++
    optional (group 2 (atLeastOne isListChar)) ++ many (· == ')') ++ one (· == '}') ++
    one (· == '}')

/-! ## What an outcome takes -/

theorem of_mem_stretches {p : Char → Bool} {s : List Char} {x : Outcome}
    (h : x ∈ stretches p s) : (∀ c ∈ x.taken, p c = true) ∧ s = x.taken ++ x.rest := by
  induction s generalizing x with
  | nil => simp_all [stretches]
  | cons c cs ih =>
      by_cases hc : p c = true
      · rw [stretches, if_pos hc, List.mem_append, List.mem_map, List.mem_singleton] at h
        obtain ⟨y, hy, rfl⟩ | rfl := h
        · obtain ⟨htaken, hcs⟩ := ih hy
          refine ⟨?_, by simp [hcs.symm]⟩
          intro d hd
          rcases List.mem_cons.mp hd with rfl | hd
          · exact hc
          · exact htaken d hd
        · simp
      · rw [stretches, if_neg hc, List.mem_singleton] at h
        simp [h]

theorem of_mem_one {p : Char → Bool} {s : List Char} {x : Outcome}
    (h : x ∈ (one p).outcomes s) : ∃ c, p c = true ∧ x.taken = [c] ∧ s = c :: x.rest := by
  cases s with
  | nil => simp [outcomes] at h
  | cons c cs =>
      by_cases hc : p c = true
      · rw [outcomes, if_pos hc, List.mem_singleton] at h
        exact ⟨c, hc, by simp [h], by simp [h]⟩
      · simp [outcomes, hc] at h

theorem of_mem_append {a b : Pattern} {s : List Char} {x : Outcome}
    (h : x ∈ (a ++ b).outcomes s) :
    ∃ y ∈ a.outcomes s, ∃ z ∈ b.outcomes y.rest, x = y.followedBy z := by
  obtain ⟨y, hy, hx⟩ := List.mem_flatMap.mp h
  obtain ⟨z, hz, rfl⟩ := List.mem_map.mp hx
  exact ⟨y, hy, z, hz, rfl⟩

theorem of_mem_atLeastOne {p : Char → Bool} {s : List Char} {x : Outcome}
    (h : x ∈ (atLeastOne p).outcomes s) :
    x.taken ≠ [] ∧ (∀ c ∈ x.taken, p c = true) ∧ s = x.taken ++ x.rest := by
  obtain ⟨y, hy, z, hz, rfl⟩ := of_mem_append h
  obtain ⟨c, hc, hyc, hs⟩ := of_mem_one hy
  obtain ⟨hzc, hrest⟩ := of_mem_stretches hz
  refine ⟨by simp [Outcome.followedBy, hyc], ?_, ?_⟩
  · intro d hd
    rcases List.mem_append.mp hd with hd | hd
    · obtain rfl : d = c := by simpa [hyc] using hd
      exact hc
    · exact hzc d hd
  · simp [Outcome.followedBy, hyc, hs, ← hrest]

theorem of_mem_group {i : Nat} {a : Pattern} {s : List Char} {x : Outcome}
    (h : x ∈ (group i a).outcomes s) :
    ∃ y ∈ a.outcomes s, x.taken = y.taken ∧ x.rest = y.rest := by
  obtain ⟨y, hy, rfl⟩ := List.mem_map.mp h
  exact ⟨y, hy, rfl, rfl⟩

theorem of_mem_list {s : List Char} {x : Outcome}
    (h : x ∈ (optional (group 2 (atLeastOne isListChar))).outcomes s) :
    (∀ c ∈ x.taken, isListChar c = true) ∧ s = x.taken ++ x.rest := by
  rcases List.mem_append.mp h with h | h
  · obtain ⟨y, hy, htaken, hrest⟩ := of_mem_group h
    rw [htaken, hrest]
    exact (of_mem_atLeastOne hy).2
  · simp [List.mem_singleton.mp h]

theorem of_mem_brace {b : Char} {s : List Char} {x : Outcome}
    (h : x ∈ (one (· == b)).outcomes s) : x.taken = [b] ∧ s = b :: x.rest := by
  obtain ⟨c, hc, htaken, hs⟩ := of_mem_one h
  obtain rfl : c = b := by simpa using hc
  exact ⟨htaken, hs⟩

theorem of_mem_parentheses {b : Char} {s : List Char} {x : Outcome}
    (h : x ∈ (many (· == b)).outcomes s) :
    ∃ n, x.taken = List.replicate n b ∧ s = List.replicate n b ++ x.rest := by
  obtain ⟨htaken, hs⟩ := of_mem_stretches h
  have hrep : x.taken = List.replicate x.taken.length b :=
    List.eq_replicate_iff.mpr ⟨rfl, fun c hc => by simpa using htaken c hc⟩
  exact ⟨x.taken.length, hrep, hrep ▸ hs⟩

/-- Whichever way the pattern fits, what it takes is a placeholder. -/
theorem of_mem_placeholder {s : List Char} {x : Outcome} (h : x ∈ placeholder.outcomes s) :
    ∃ w : Written, w.Formed ∧ x.taken = w.text ∧ s = w.text ++ x.rest := by
  obtain ⟨y₇, k₇, x₈, h₈, rfl⟩ := of_mem_append h
  obtain ⟨y₆, k₆, x₇, h₇, rfl⟩ := of_mem_append k₇
  obtain ⟨y₅, k₅, x₆, h₆, rfl⟩ := of_mem_append k₆
  obtain ⟨y₄, k₄, x₅, h₅, rfl⟩ := of_mem_append k₅
  obtain ⟨y₃, k₃, x₄, h₄, rfl⟩ := of_mem_append k₄
  obtain ⟨y₂, k₂, x₃, h₃, rfl⟩ := of_mem_append k₃
  obtain ⟨x₁, h₁, x₂, h₂, rfl⟩ := of_mem_append k₂
  obtain ⟨ht₁, hs₁⟩ := of_mem_brace h₁
  obtain ⟨ht₂, hs₂⟩ := of_mem_brace h₂
  obtain ⟨y, hy, ht₃, hr₃⟩ := of_mem_group h₃
  obtain ⟨hmain, hmainChars, hs₃⟩ := of_mem_atLeastOne hy
  obtain ⟨m, ht₄, hs₄⟩ := of_mem_parentheses h₄
  obtain ⟨hlist, hs₅⟩ := of_mem_list h₅
  obtain ⟨n, ht₆, hs₆⟩ := of_mem_parentheses h₆
  obtain ⟨ht₇, hs₇⟩ := of_mem_brace h₇
  obtain ⟨ht₈, hs₈⟩ := of_mem_brace h₈
  refine ⟨⟨y.taken, m, x₅.taken, n⟩, ⟨hmain, hmainChars, hlist⟩, ?_, ?_⟩
  · simp [Outcome.followedBy, Written.text, ht₁, ht₂, ht₃, ht₄, ht₆, ht₇, ht₈]
  · simp_all [Outcome.followedBy, Written.text]

/-! ## The first outcome -/

theorem first?_one {p : Char → Bool} {c : Char} (hc : p c = true) (s : List Char) :
    (one p).first? (c :: s) = some ⟨[c], [], s⟩ := by
  simp [first?, outcomes, hc]

theorem first?_many {p : Char → Bool} {a b : List Char} (ha : ∀ c ∈ a, p c = true)
    (hb : StopsAt p b) : (many p).first? (a ++ b) = some ⟨a, [], b⟩ := by
  induction a with
  | nil =>
      cases b with
      | nil => rfl
      | cons c b => simp [first?, outcomes, stretches, stopsAt_cons.mp hb]
  | cons c a ih =>
      have ih := ih fun d hd => ha d (List.mem_cons_of_mem c hd)
      rw [first?, outcomes] at ih ⊢
      simp [stretches, ha c (by simp), List.head?_append, ih]

theorem first?_append {a b : Pattern} {s : List Char} {x y : Outcome}
    (hx : a.first? s = some x) (hy : b.first? x.rest = some y) :
    (a ++ b).first? s = some (x.followedBy y) := by
  obtain ⟨xs, hxs⟩ := List.head?_eq_some_iff.mp hx
  obtain ⟨ys, hys⟩ := List.head?_eq_some_iff.mp hy
  have hab : (a ++ b).outcomes s =
      (a.outcomes s).flatMap fun x => (b.outcomes x.rest).map x.followedBy := rfl
  simp [first?, hab, hxs, hys]

theorem first?_atLeastOne {p : Char → Bool} {a b : List Char} (hne : a ≠ [])
    (ha : ∀ c ∈ a, p c = true) (hb : StopsAt p b) :
    (atLeastOne p).first? (a ++ b) = some ⟨a, [], b⟩ := by
  obtain ⟨c, a, rfl⟩ := List.exists_cons_of_ne_nil hne
  have hmany := first?_many (fun d hd => ha d (List.mem_cons_of_mem c hd)) hb
  rw [List.cons_append, atLeastOne, first?_append (first?_one (ha c (by simp)) _) hmany]
  rfl

theorem outcomes_atLeastOne_eq_nil {p : Char → Bool} {s : List Char} (h : StopsAt p s) :
    (atLeastOne p).outcomes s = [] := by
  refine List.eq_nil_iff_forall_not_mem.mpr fun x hx => ?_
  obtain ⟨hne, htaken, hs⟩ := of_mem_atLeastOne hx
  obtain ⟨c, t, hct⟩ := List.exists_cons_of_ne_nil hne
  rw [hs, hct, List.cons_append, stopsAt_cons] at h
  simp [htaken c (by simp [hct])] at h

theorem first?_group {i : Nat} {a : Pattern} {s : List Char} {x : Outcome}
    (h : a.first? s = some x) :
    (group i a).first? s = some { x with groups := (i, x.taken) :: x.groups } := by
  rw [first?] at h
  simp [first?, outcomes, h]

end Pattern

/-- What the groups keep of a placeholder; a missing list is kept by none. -/
def Written.groups (w : Written) : List (Nat × List Char) :=
  (1, w.main) :: if w.list = [] then [] else [(2, w.list)]

namespace Pattern

theorem first?_list {w : Written} (hw : w.Formed) {rest : List Char}
    (h : StopsAt isListChar rest) :
    (optional (group 2 (atLeastOne isListChar))).first? (w.list ++ rest) =
      some ⟨w.list, if w.list = [] then [] else [(2, w.list)], rest⟩ := by
  by_cases hl : w.list = []
  · simp [first?, outcomes, hl, outcomes_atLeastOne_eq_nil h]
  · have hfirst := first?_group (i := 2) (first?_atLeastOne hl hw.list_chars h)
    rw [first?] at hfirst ⊢
    rw [outcomes, List.head?_append, hfirst]
    simp [hl]

/-- Where a placeholder with the longest main reference stands, its parts are what the search
prefers. -/
theorem first?_text_append {w : Written} (hw : w.Formed) (hg : w.Greedy) (rest : List Char) :
    placeholder.first? (w.text ++ rest) = some ⟨w.text, w.groups, rest⟩ := by
  have hopen : ∀ c ∈ List.replicate w.opening '(', (c == '(') = true := by simp
  have hclose : ∀ c ∈ List.replicate w.closing ')', (c == ')') = true := by simp
  have h₁ := first?_one (p := (· == '{')) (c := '{') rfl ('{' :: (w.main ++ w.behindMain rest))
  have h₂ := first?_append h₁ (first?_one (p := (· == '{')) rfl _)
  have h₃ := first?_append h₂ (first?_group (i := 1)
    (first?_atLeastOne hw.main_ne_nil hw.main_chars ((Written.greedy_iff hw rest).mp hg)))
  have h₄ := first?_append h₃ (first?_many hopen (hw.stopsAt_opening rest))
  have h₅ := first?_append h₄ (first?_list hw (w.stopsAt_list rest))
  have h₆ := first?_append h₅ (first?_many hclose (by simp))
  have h₇ := first?_append h₆ (first?_one (p := (· == '}')) (c := '}') rfl ('}' :: rest))
  have h₈ := first?_append h₇ (first?_one (p := (· == '}')) (c := '}') rfl rest)
  rw [Written.text_append, placeholder, h₈]
  simp [Outcome.followedBy, Written.text, Written.groups]

/-- The first outcome of the pattern is the greedy reading. -/
theorem first?_placeholder (s : List Char) :
    placeholder.first? s =
      (Written.leading? s).map fun w => ⟨w.text, w.groups, s.drop w.text.length⟩ := by
  cases h : Written.leading? s with
  | some w =>
      obtain ⟨hw, hg, rest, rfl⟩ := Written.leading?_spec h
      simp [first?_text_append hw hg rest]
  | none =>
      refine List.head?_eq_none_iff.mpr (List.eq_nil_iff_forall_not_mem.mpr fun x hx => ?_)
      obtain ⟨w, hw, -, hs⟩ := of_mem_placeholder hx
      obtain ⟨v, hv, -⟩ := Written.exists_formed_iff.mp ⟨w, hw, rfl, x.rest, hs.symm⟩
      simp [h] at hv

end Pattern

end Placeholder

end StepTemplate
