import StepTemplate.Proofs.Text.Occurrences

namespace StepTemplate

/-!
# Runs of a mark

Whether the runs of a mark `x` all have length `k` is decided from left to right, with a count of
the marks passed last. Two texts without the mark, neither of them empty, do the same to this
count. So replacing one by the other leaves all runs as they are, and marks may be put in where no
mark stands next to them.
-/

namespace Text

variable {x : Char} {k n : Nat} {a s v : List Char} {c : Char}

/-- There is a run of `n` marks in the text that goes on at neither end. -/
def HasRun (x : Char) (n : Nat) (s : List Char) : Prop :=
  0 < n ∧ ∃ before after, s = before ++ (List.replicate n x ++ after) ∧
    before.getLast? ≠ some x ∧ after.head? ≠ some x

/-- Behind `n` marks each run of marks comes to the length `k`. -/
def RunsFrom (x : Char) (k : Nat) : Nat → List Char → Prop
  | n, [] => n = 0 ∨ n = k
  | n, c :: s => if c = x then RunsFrom x k (n + 1) s else (n = 0 ∨ n = k) ∧ RunsFrom x k 0 s

@[simp] theorem runsFrom_nil : RunsFrom x k n [] ↔ n = 0 ∨ n = k := Iff.rfl

theorem runsFrom_cons_self : RunsFrom x k n (x :: s) ↔ RunsFrom x k (n + 1) s := by
  simp [RunsFrom]

theorem runsFrom_cons (hc : c ≠ x) :
    RunsFrom x k n (c :: s) ↔ (n = 0 ∨ n = k) ∧ RunsFrom x k 0 s := by
  simp [RunsFrom, hc]

theorem runsFrom_replicate (i : Nat) :
    RunsFrom x k n (List.replicate i x ++ s) ↔ RunsFrom x k (n + i) s := by
  induction i generalizing n with
  | zero => rfl
  | succ i ih =>
      rw [List.replicate_succ, List.cons_append, runsFrom_cons_self, ih, Nat.add_assoc,
        Nat.add_comm 1 i]

/-- A text without the mark ends the run in front of it. -/
theorem runsFrom_free (hne : v ≠ []) (hv : x ∉ v) :
    RunsFrom x k n (v ++ s) ↔ (n = 0 ∨ n = k) ∧ RunsFrom x k 0 s := by
  induction v generalizing n with
  | nil => exact absurd rfl hne
  | cons c v ih =>
      rw [List.mem_cons, not_or] at hv
      rw [List.cons_append, runsFrom_cons (Ne.symm hv.1)]
      cases v with
      | nil => rfl
      | cons d v => rw [ih (by simp) hv.2, and_iff_right (Or.inl rfl)]

theorem runsFrom_enclosed (k : Nat) (hne : v ≠ []) (hv : x ∉ v) :
    RunsFrom x k 0 (List.replicate k x ++ v ++ List.replicate k x) := by
  rw [List.append_assoc, runsFrom_replicate, runsFrom_free hne hv,
    ← List.append_nil (List.replicate _ _), runsFrom_replicate]
  simp

theorem runsFrom_of_notMem (hs : x ∉ s) : RunsFrom x k 0 s := by
  cases s with
  | nil => exact Or.inl rfl
  | cons c s =>
      have h := runsFrom_free (k := k) (n := 0) (s := []) (List.cons_ne_nil c s) hs
      rw [List.append_nil] at h
      exact h.mpr ⟨Or.inl rfl, Or.inl rfl⟩

theorem runsFrom_of_head? (hs : s.head? ≠ some x) :
    RunsFrom x k n s ↔ (n = 0 ∨ n = k) ∧ RunsFrom x k 0 s := by
  cases s with
  | nil => simp
  | cons c s =>
      have hc : c ≠ x := by simpa using hs
      rw [runsFrom_cons hc, runsFrom_cons hc, and_iff_right (Or.inl rfl)]

theorem RunsFrom.append (ha : RunsFrom x k n a) (hs : RunsFrom x k 0 s) (hhead : s.head? ≠ some x) :
    RunsFrom x k n (a ++ s) := by
  -- `n` marks have just been read, so the count changes along the text
  induction a generalizing n with
  | nil => exact (runsFrom_of_head? hhead).mpr ⟨ha, hs⟩
  | cons c a ih =>
      by_cases hc : c = x
      · subst hc
        rw [runsFrom_cons_self] at ha
        rw [List.cons_append, runsFrom_cons_self]
        exact ih ha
      · rw [runsFrom_cons hc] at ha
        rw [List.cons_append, runsFrom_cons hc]
        exact ⟨ha.1, ih ha.2⟩

theorem RunsFrom.of_append (h : RunsFrom x k n (a ++ s)) (hlast : a.getLast? ≠ some x)
    (ha : a = [] → n = 0) : RunsFrom x k 0 s := by
  induction a generalizing n with
  | nil =>
      obtain rfl := ha rfl
      exact h
  | cons c a ih =>
      rw [List.cons_append] at h
      by_cases hc : c = x
      · subst hc
        have hne : a ≠ [] := by
          rintro rfl
          simp at hlast
        rw [runsFrom_cons_self] at h
        refine ih h ?_ (fun hnil => absurd hnil hne)
        simpa [List.getLast?_cons, List.getLast?_eq_some_getLast hne] using hlast
      · rw [runsFrom_cons hc] at h
        refine ih h.2 ?_ (fun _ => rfl)
        intro hx
        simp [List.getLast?_cons, hx] at hlast

theorem RunsFrom.eq_of_hasRun (h : RunsFrom x k 0 s) (hrun : HasRun x n s) : n = k := by
  obtain ⟨hpos, before, after, rfl, hbefore, hafter⟩ := hrun
  have hrest := h.of_append hbefore (fun _ => rfl)
  rw [runsFrom_replicate, Nat.zero_add, runsFrom_of_head? hafter] at hrest
  rcases hrest.1 with hzero | hk
  · omega
  · exact hk

/-! ## Replacing occurrences without the mark -/

variable {needle value inner : List Char} {before : Option Char}
  {accept : Option Char → Option Char → Bool}

theorem RunsFrom.replaceFrom (hneedle : needle ≠ []) (hn : x ∉ needle) (hvalue : value ≠ [])
    (hv : x ∉ value) (h : RunsFrom x k n s) :
    RunsFrom x k n (Text.replaceFrom accept needle value before 0 s) := by
  induction s using occurrence_induction hneedle generalizing n before with
  | nil => simpa using h
  | occurrence rest ih =>
      rw [runsFrom_free hneedle hn] at h
      rw [replaceFrom_occurrence _ hneedle]
      by_cases hacc : accept before rest.head? = true
      · rw [if_pos hacc, runsFrom_free hvalue hv]
        exact ⟨h.1, ih h.2⟩
      · rw [if_neg hacc, runsFrom_free hneedle hn]
        exact ⟨h.1, ih h.2⟩
  | char c s hocc ih =>
      rw [replaceFrom_cons _ hocc]
      by_cases hc : c = x
      · subst hc
        rw [runsFrom_cons_self] at h ⊢
        exact ih h
      · rw [runsFrom_cons hc] at h ⊢
        exact ⟨h.1, ih h.2⟩

theorem RunsFrom.replaceWhere (hn : x ∉ needle) (hvalue : value ≠ []) (hv : x ∉ value)
    (h : RunsFrom x k 0 s) : RunsFrom x k 0 (Text.replaceWhere accept needle value s) := by
  rw [Text.replaceWhere]
  split
  · exact h
  · next hneedle => exact h.replaceFrom hneedle hn hvalue hv

/-- Marks may be put around an occurrence that has no mark next to it, if nothing that could be
another occurrence follows it directly. -/
theorem RunsFrom.replaceFrom_enclosed (hneedle : needle ≠ []) (hn : x ∉ needle)
    (hinner : inner ≠ []) (hi : x ∉ inner)
    (haccept : ∀ before after, accept before after = true →
      before ≠ some x ∧ after ≠ some x ∧ ∀ c ∈ after, needle.head? ≠ some c)
    (h : RunsFrom x k n s) (hbefore : before ≠ some x → n = 0) :
    RunsFrom x k n (Text.replaceFrom accept needle
      (List.replicate k x ++ inner ++ List.replicate k x) before 0 s) := by
  -- a count is open only behind a mark, and `hbefore` carries this along the text
  induction s using occurrence_induction hneedle generalizing n before with
  | nil => simpa using h
  | occurrence rest ih =>
      have hlast : needle.getLast? ≠ some x := fun hx => hn (List.mem_of_getLast? hx)
      rw [runsFrom_free hneedle hn] at h
      have hrest := @ih 0 needle.getLast? h.2 (fun _ => rfl)
      rw [replaceFrom_occurrence _ hneedle]
      by_cases hacc : accept before rest.head? = true
      · obtain ⟨hb, hafter, hnext⟩ := haccept _ _ hacc
        obtain rfl := hbefore hb
        -- the marks at the end wait for what follows, and this is no mark
        rw [if_pos hacc, List.append_assoc, List.append_assoc, runsFrom_replicate,
          Nat.zero_add, runsFrom_free hinner hi, runsFrom_replicate, Nat.zero_add]
        refine ⟨Or.inr rfl, (runsFrom_of_head? ?_).mpr ⟨Or.inr rfl, hrest⟩⟩
        rwa [head?_replaceFrom hneedle hnext]
      · rw [if_neg hacc, runsFrom_free hneedle hn]
        exact ⟨h.1, hrest⟩
  | char c s hocc ih =>
      rw [replaceFrom_cons _ hocc]
      by_cases hc : c = x
      · subst hc
        rw [runsFrom_cons_self] at h ⊢
        exact ih h (fun hx => absurd rfl hx)
      · rw [runsFrom_cons hc] at h ⊢
        exact ⟨h.1, ih h.2 (fun _ => rfl)⟩

end Text

end StepTemplate
