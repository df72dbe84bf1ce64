import Mathlib.Logic.Function.Iterate
import StepTemplate.Proofs.Sequence.Chain

namespace StepTemplate

/-!
# The run of the placement loop

Each pass puts waiting steps one by one beside their targets, which are placed already. The loop
stops at the first pass that places nothing, and then each step that still waits has a target
that is not placed.
-/

namespace Sequencing

variable {placed placed' waiting : List Step} {x t : Step} {p q : List Step}

/-- Between `p` and `q` the step `x` stands directly before or behind its target `t`. -/
structure Beside (x t : Step) (p q : List Step) : Prop where
  link : x.link = some t.key
  side : if x.offset ≤ 0 then q.head? = some t else p.getLast? = some t

theorem Beside.mem_or_mem (h : Beside x t p q) : t ∈ p ∨ t ∈ q := by
  have hside := h.side
  split at hside
  · exact Or.inr (List.mem_of_mem_head? hside)
  · exact Or.inl (List.mem_of_mem_getLast? hside)

/-- One of the waiting steps is put beside its target. -/
def Puts (waiting placed placed' : List Step) : Prop :=
  ∃ x t p q, x ∈ waiting ∧ x ∉ placed ∧ placed = p ++ q ∧ placed' = p ++ x :: q ∧ Beside x t p q

/-- Waiting steps are put beside their targets one after the other. -/
def Grows (waiting : List Step) : List Step → List Step → Prop :=
  Relation.ReflTransGen (Puts waiting)

theorem insertIdx_length_append (p q : List Step) (x : Step) :
    (p ++ q).insertIdx p.length x = p ++ x :: q := by
  induction p with
  | nil => rfl
  | cons s p ih => simp [ih]

theorem position?_of_link {k : String} (hx : x.link = some k) :
    position? placed x =
      (placed.findIdx? (·.key == k)).map fun i => if x.offset ≤ 0 then i else i + 1 := by
  cases hi : placed.findIdx? (·.key == k) <;> simp [position?, hx, hi]

theorem position?_eq_none_iff : position? placed x = none ↔ ∀ t ∈ placed, x.link ≠ some t.key := by
  cases hx : x.link with
  | none => simp [position?, hx]
  | some k =>
      rw [position?_of_link hx, Option.map_eq_none_iff, List.findIdx?_eq_none_iff]
      refine forall₂_congr fun t _ => ?_
      rw [beq_eq_false_iff_ne, ne_comm, ne_eq, ne_eq, Option.some.injEq]

/-- An index at which a step goes divides the steps placed beside its target. -/
theorem exists_beside_of_position? {i : Nat} (h : position? placed x = some i) :
    ∃ t p q, placed = p ++ q ∧ p.length = i ∧ Beside x t p q := by
  cases hx : x.link with
  | none => simp [position?, hx] at h
  | some k =>
      rw [position?_of_link hx, Option.map_eq_some_iff] at h
      obtain ⟨j, hj, rfl⟩ := h
      obtain ⟨hlt, hkey, -⟩ := List.findIdx?_eq_some_iff_getElem.mp hj
      have hlink : x.link = some placed[j].key := by rw [hx, beq_iff_eq.mp hkey]
      by_cases hoff : x.offset ≤ 0
      · refine ⟨placed[j], placed.take j, placed.drop j, by simp, ?_, hlink, ?_⟩
        · simp [hoff, Nat.min_eq_left (Nat.le_of_lt hlt)]
        · simp [hoff, hlt]
      · refine ⟨placed[j], placed.take (j + 1), placed.drop (j + 1), by simp, ?_, hlink, ?_⟩
        · simp [hoff, Nat.min_eq_left (Nat.succ_le_of_lt hlt)]
        · simp [hoff, hlt, List.getLast?_take]

theorem position?_le_length {i : Nat} (h : position? placed x = some i) : i ≤ placed.length := by
  obtain ⟨t, p, q, rfl, rfl, -⟩ := exists_beside_of_position? h
  simp

/-! ## One pass -/

theorem pass_cons_of_some {i : Nat} (waiting : List Step) (h : position? placed x = some i) :
    ∃ t p q, placed = p ++ q ∧ Beside x t p q ∧
      pass placed (x :: waiting) = pass (p ++ x :: q) waiting := by
  obtain ⟨t, p, q, rfl, hp, hb⟩ := exists_beside_of_position? h
  refine ⟨t, p, q, rfl, hb, ?_⟩
  rw [pass, h]
  simp only [← hp, insertIdx_length_append]

theorem pass_cons_of_none (h : position? placed x = none) :
    pass placed (x :: waiting) = ((pass placed waiting).1, x :: (pass placed waiting).2) := by
  rw [pass, h]

theorem put_perm (p q waiting : List Step) (x : Step) :
    (p ++ x :: q ++ waiting).Perm (p ++ q ++ x :: waiting) := by
  have h : (x :: (q ++ waiting)).Perm (q ++ x :: waiting) := List.perm_middle.symm
  simpa using h.append_left p

theorem pass_perm (placed waiting : List Step) :
    ((pass placed waiting).1 ++ (pass placed waiting).2).Perm (placed ++ waiting) := by
  induction waiting generalizing placed with
  | nil => simp [pass]
  | cons x waiting ih =>
      cases h : position? placed x with
      | some i =>
          obtain ⟨t, p, q, rfl, -, hpass⟩ := pass_cons_of_some waiting h
          rw [hpass]
          exact (ih _).trans (put_perm p q waiting x)
      | none =>
          rw [pass_cons_of_none h]
          exact List.perm_middle.trans (((ih placed).cons x).trans List.perm_middle.symm)

theorem pass_left_sublist (placed waiting : List Step) :
    (pass placed waiting).2.Sublist waiting := by
  induction waiting generalizing placed with
  | nil => simp [pass]
  | cons x waiting ih =>
      cases h : position? placed x with
      | some i =>
          obtain ⟨t, p, q, rfl, -, hpass⟩ := pass_cons_of_some waiting h
          rw [hpass]
          exact (ih _).cons x
      | none =>
          rw [pass_cons_of_none h]
          exact (ih placed).cons_cons x

theorem Grows.mono {waiting' : List Step} (hsub : waiting ⊆ waiting')
    (h : Grows waiting placed placed') : Grows waiting' placed placed' := by
  refine Relation.ReflTransGen.mono ?_ _ _ h
  rintro a b ⟨x, t, p, q, hx, hrest⟩
  exact ⟨x, t, p, q, hsub hx, hrest⟩

theorem pass_grows (h : (placed ++ waiting).Nodup) :
    Grows waiting placed (pass placed waiting).1 := by
  induction waiting generalizing placed with
  | nil => exact .refl
  | cons x waiting ih =>
      have hx : x ∉ placed := fun hx => (List.disjoint_of_nodup_append h) hx (by simp)
      cases hpos : position? placed x with
      | some i =>
          obtain ⟨t, p, q, rfl, hb, hpass⟩ := pass_cons_of_some waiting hpos
          rw [hpass]
          have hnodup := (put_perm p q waiting x).symm.nodup h
          have hput : Puts (x :: waiting) (p ++ q) (p ++ x :: q) :=
            ⟨x, t, p, q, by simp, hx, rfl, rfl, hb⟩
          exact .head hput ((ih hnodup).mono (List.subset_cons_self x waiting))
      | none =>
          rw [pass_cons_of_none hpos]
          have hsub : (placed ++ waiting).Sublist (placed ++ x :: waiting) :=
            (List.sublist_cons_self x waiting).append_left placed
          exact (ih (hsub.nodup h)).mono (List.subset_cons_self x waiting)

/-- A pass that leaves as many steps as there were has changed nothing. -/
theorem pass_stuck (h : ¬ (pass placed waiting).2.length < waiting.length) :
    pass placed waiting = (placed, waiting) ∧ ∀ x ∈ waiting, position? placed x = none := by
  induction waiting generalizing placed with
  | nil => simp [pass]
  | cons x waiting ih =>
      cases hpos : position? placed x with
      | some i =>
          obtain ⟨t, p, q, rfl, -, hpass⟩ := pass_cons_of_some waiting hpos
          rw [hpass] at h
          have := length_pass_le (p ++ x :: q) waiting
          simp only [List.length_cons] at h
          omega
      | none =>
          rw [pass_cons_of_none hpos] at h ⊢
          have hlt : ¬ (pass placed waiting).2.length < waiting.length := by simpa using h
          obtain ⟨heq, hwait⟩ := ih hlt
          refine ⟨by rw [heq], ?_⟩
          intro y hy
          rcases List.mem_cons.mp hy with rfl | hy
          · exact hpos
          · exact hwait y hy

/-! ## The whole loop -/

/-- The steps placed and the steps waiting after `n` passes. -/
def passes (n : Nat) (state : List Step × List Step) : List Step × List Step :=
  (fun state => pass state.1 state.2)^[n] state

theorem passes_succ (n : Nat) (state : List Step × List Step) :
    passes (n + 1) state = passes n (pass state.1 state.2) :=
  Function.iterate_succ_apply _ n state

theorem passes_perm (n : Nat) (placed waiting : List Step) :
    ((passes n (placed, waiting)).1 ++ (passes n (placed, waiting)).2).Perm
      (placed ++ waiting) := by
  induction n generalizing placed waiting with
  | zero => exact .refl _
  | succ n ih =>
      rw [passes_succ]
      exact (ih _ _).trans (pass_perm placed waiting)

theorem passes_left_sublist (n : Nat) (placed waiting : List Step) :
    (passes n (placed, waiting)).2.Sublist waiting := by
  induction n generalizing placed waiting with
  | zero => exact .refl _
  | succ n ih =>
      rw [passes_succ]
      exact (ih _ _).trans (pass_left_sublist placed waiting)

theorem passes_grows (n : Nat) (h : (placed ++ waiting).Nodup) :
    Grows waiting placed (passes n (placed, waiting)).1 := by
  induction n generalizing placed waiting with
  | zero => exact .refl
  | succ n ih =>
      rw [passes_succ]
      have hrest := ih ((pass_perm placed waiting).symm.nodup h)
      exact (pass_grows h).trans (hrest.mono (pass_left_sublist placed waiting).subset)

/-- The loop ends after no more passes than there are waiting steps, in a state that a further
pass does not change. -/
theorem exists_passes_place (placed waiting : List Step) :
    ∃ n ≤ waiting.length, ∃ state, passes n (placed, waiting) = state ∧
      (∀ x ∈ state.2, position? state.1 x = none) ∧
      pass state.1 state.2 = state ∧ place placed waiting = state.1 ++ state.2 := by
  induction hlen : waiting.length using Nat.strongRecOn generalizing placed waiting with
  | ind m ih =>
      subst hlen
      rw [place]
      by_cases hlt : (pass placed waiting).2.length < waiting.length
      · rw [if_pos hlt]
        obtain ⟨n, hn, state, hstate, hrest⟩ :=
          ih _ hlt (pass placed waiting).1 (pass placed waiting).2 rfl
        refine ⟨n + 1, ?_, state, ?_, hrest⟩
        · omega
        · rwa [passes_succ]
      · rw [if_neg hlt]
        obtain ⟨heq, hnone⟩ := pass_stuck hlt
        exact ⟨0, Nat.zero_le _, (placed, waiting), rfl, hnone, heq, by rw [heq]⟩

end Sequencing

end StepTemplate
