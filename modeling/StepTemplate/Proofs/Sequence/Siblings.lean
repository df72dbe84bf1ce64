import Mathlib.Data.List.Count
import StepTemplate.Proofs.Sequence.Fixpoint

namespace StepTemplate

/-!
# Steps with the same target

The steps linked to an unlinked step are all placed in the first pass, in the order of their
declarations and each directly beside the target. So the last one that goes behind it comes first.
-/

namespace Sequencing

variable {steps placed waiting line p q : List Step} {s t u x : Step}

/-- The steps that are to go before their target `t`, as declared. -/
def linkedBefore (steps : List Step) (t : Step) : List Step :=
  steps.filter fun s => s.link = some t.key ∧ s.offset ≤ 0

/-- The steps that are to go behind their target `t`, as declared. -/
def linkedBehind (steps : List Step) (t : Step) : List Step :=
  steps.filter fun s => s.link = some t.key ∧ 0 < s.offset

/-- The step `t` and the steps linked to it, in the order of a list. -/
def around (l : List Step) (t : Step) : List Step :=
  l.filter fun s => s = t ∨ s.link = some t.key

theorem mem_around : s ∈ around placed t ↔ s ∈ placed ∧ (s = t ∨ s.link = some t.key) := by
  simp [around]

theorem around_append (p q : List Step) (t : Step) : around (p ++ q) t = around p t ++ around q t :=
  List.filter_append ..

theorem around_cons_self (t : Step) (q : List Step) : around (t :: q) t = t :: around q t := by
  simp [around]

theorem around_cons_of_link (hx : x.link = some t.key) (q : List Step) :
    around (x :: q) t = x :: around q t := by
  simp [around, hx]

theorem around_cons_of_ne (hne : x ≠ t) (hx : x.link ≠ some t.key) (q : List Step) :
    around (x :: q) t = around q t := by
  simp [around, hne, hx]

theorem around_eq_nil (ht : t ∉ placed) (h : ∀ x ∈ placed, x.link ≠ some t.key) :
    around placed t = [] := by
  rw [around, List.filter_eq_nil_iff]
  intro x hx
  have hne : x ≠ t := fun heq => ht (heq ▸ hx)
  simp [hne, h x hx]

theorem linkedBefore_cons_of_ne (hx : x.link ≠ some t.key) (waiting : List Step) :
    linkedBefore (x :: waiting) t = linkedBefore waiting t := by
  simp [linkedBefore, hx]

theorem linkedBehind_cons_of_ne (hx : x.link ≠ some t.key) (waiting : List Step) :
    linkedBehind (x :: waiting) t = linkedBehind waiting t := by
  simp [linkedBehind, hx]

/-! ## What every pass keeps -/

/-- Once the waiting steps that are linked to `t` are placed too, `t` and the steps linked to it
stand in the given line. -/
def LinesUp (t : Step) (line placed waiting : List Step) : Prop :=
  ∃ a b, around placed t = a ++ t :: b ∧
    line = (a ++ linkedBefore waiting t) ++ t :: ((linkedBehind waiting t).reverse ++ b)

theorem LinesUp.mem (h : LinesUp t line placed waiting) : t ∈ placed := by
  obtain ⟨a, b, hab, -⟩ := h
  have ht : t ∈ around placed t := by simp [hab]
  exact (mem_around.mp ht).1

theorem linesUp_cons_of_ne (hx : x.link ≠ some t.key) :
    LinesUp t line placed (x :: waiting) ↔ LinesUp t line placed waiting := by
  rw [LinesUp, LinesUp, linkedBefore_cons_of_ne hx, linkedBehind_cons_of_ne hx]

theorem around_eq_around_append (hnodup : (p ++ t :: q).Nodup) {a b : List Step}
    (hab : around (p ++ t :: q) t = a ++ t :: b) : around p t = a ∧ around q t = b := by
  have hsub : (around (p ++ t :: q) t).Nodup := hnodup.filter _
  rw [hab, List.nodup_middle, List.nodup_cons, List.mem_append, not_or] at hsub
  rw [around_append, around_cons_self] at hab
  obtain ⟨ha, -, hb⟩ := (List.append_cons_inj_of_notMem hsub.1.1 hsub.1.2).mp hab.symm
  exact ⟨ha.symm, hb.symm⟩

theorem LinesUp.put_before (hnodup : (p ++ t :: q).Nodup) (hlink : x.link = some t.key)
    (hoff : x.offset ≤ 0) (h : LinesUp t line (p ++ t :: q) (x :: waiting)) :
    LinesUp t line (p ++ x :: t :: q) waiting := by
  obtain ⟨a, b, hab, rfl⟩ := h
  obtain ⟨rfl, rfl⟩ := around_eq_around_append hnodup hab
  have hbefore : linkedBefore (x :: waiting) t = x :: linkedBefore waiting t := by
    simp [linkedBefore, hlink, hoff]
  have hbehind : linkedBehind (x :: waiting) t = linkedBehind waiting t := by
    simp [linkedBehind, Int32.not_lt.mpr hoff]
  refine ⟨around p t ++ [x], around q t, ?_, ?_⟩
  · simp [around_append, around_cons_of_link hlink, around_cons_self]
  · simp [hbefore, hbehind]

theorem LinesUp.put_behind (hnodup : (p ++ t :: q).Nodup) (hlink : x.link = some t.key)
    (hoff : ¬ x.offset ≤ 0) (h : LinesUp t line (p ++ t :: q) (x :: waiting)) :
    LinesUp t line (p ++ t :: x :: q) waiting := by
  obtain ⟨a, b, hab, rfl⟩ := h
  obtain ⟨rfl, rfl⟩ := around_eq_around_append hnodup hab
  have hbefore : linkedBefore (x :: waiting) t = linkedBefore waiting t := by
    simp [linkedBefore, hoff]
  have hbehind : linkedBehind (x :: waiting) t = x :: linkedBehind waiting t := by
    simp [linkedBehind, hlink, Int32.not_le.mp hoff]
  refine ⟨around p t, x :: around q t, ?_, ?_⟩
  · simp [around_append, around_cons_of_link hlink, around_cons_self]
  · simp [hbefore, hbehind]

theorem LinesUp.put_apart (hne : x ≠ t) (hlink : x.link ≠ some t.key)
    (h : LinesUp t line (p ++ q) (x :: waiting)) : LinesUp t line (p ++ x :: q) waiting := by
  obtain ⟨a, b, hab, hline⟩ := (linesUp_cons_of_ne hlink).mp h
  refine ⟨a, b, ?_, hline⟩
  rw [around_append, around_cons_of_ne hne hlink, ← around_append, hab]

theorem LinesUp.put (hkeys : ((p ++ q).map Step.key).Nodup) (hx : x ∉ p ++ q)
    (hb : Beside x u p q) (h : LinesUp t line (p ++ q) (x :: waiting)) :
    LinesUp t line (p ++ x :: q) waiting := by
  by_cases hlink : x.link = some t.key
  · obtain rfl : u = t := by
      have hu := List.mem_append.mpr hb.mem_or_mem
      exact List.inj_on_of_nodup_map hkeys hu h.mem (Option.some.inj (hb.link.symm.trans hlink))
    have hside := hb.side
    split at hside
    · next hoff =>
      obtain ⟨q, rfl⟩ := List.head?_eq_some_iff.mp hside
      exact h.put_before hkeys.of_map hlink hoff
    · next hoff =>
      obtain ⟨p, rfl⟩ := List.getLast?_eq_some_iff.mp hside
      rw [List.append_assoc, List.singleton_append] at hkeys h ⊢
      exact h.put_behind hkeys.of_map hlink hoff
  · exact h.put_apart (fun heq => hx (heq ▸ h.mem)) hlink

theorem LinesUp.pass (hkeys : ((placed ++ waiting).map Step.key).Nodup)
    (h : LinesUp t line placed waiting) :
    LinesUp t line (pass placed waiting).1 (pass placed waiting).2 := by
  induction waiting generalizing placed with
  | nil => exact h
  | cons x waiting ih =>
      cases hpos : position? placed x with
      | some i =>
          obtain ⟨u, p, q, rfl, hb, hpass⟩ := pass_cons_of_some waiting hpos
          have hkeys' := ((put_perm p q waiting x).symm.map Step.key).nodup hkeys
          have hx : x ∉ p ++ q := fun hx => List.disjoint_of_nodup_append hkeys.of_map hx (by simp)
          have hplaced := hkeys
          rw [List.map_append] at hplaced
          rw [hpass]
          exact ih hkeys' (h.put hplaced.of_append_left hx hb)
      | none =>
          -- the step waits on, so its target is not among the steps placed
          have hx : x.link ≠ some t.key := position?_eq_none_iff.mp hpos t h.mem
          have hsub : (placed ++ waiting).Sublist (placed ++ x :: waiting) :=
            (List.sublist_cons_self x waiting).append_left placed
          rw [pass_cons_of_none hpos]
          have hrest := ih ((hsub.map Step.key).nodup hkeys) ((linesUp_cons_of_ne hx).mp h)
          exact (linesUp_cons_of_ne hx).mpr hrest

theorem LinesUp.passes (n : Nat) (hkeys : ((placed ++ waiting).map Step.key).Nodup)
    (h : LinesUp t line placed waiting) :
    LinesUp t line (passes n (placed, waiting)).1 (passes n (placed, waiting)).2 := by
  induction n generalizing placed waiting with
  | zero => exact h
  | succ n ih =>
      rw [passes_succ]
      exact ih (((pass_perm placed waiting).symm.map Step.key).nodup hkeys) (h.pass hkeys)

/-! ## From the first pass to the last -/

theorem around_unlinkedSteps (hnodup : steps.Nodup) (ht : t ∈ unlinkedSteps steps) :
    around (unlinkedSteps steps) t = [t] := by
  have hsame : around (unlinkedSteps steps) t = (unlinkedSteps steps).filter (· = t) := by
    refine List.filter_congr fun s hs => ?_
    simp [(mem_unlinkedSteps.mp hs).2]
  have hone : (unlinkedSteps steps).count t = 1 :=
    List.count_eq_one_of_mem (hnodup.filter _) ht
  rw [hsame, List.filter_eq, hone, List.replicate_one]

theorem linesUp_start (hnodup : steps.Nodup) (ht : t ∈ unlinkedSteps steps) :
    LinesUp t (linkedBefore steps t ++ t :: (linkedBehind steps t).reverse)
      (unlinkedSteps steps) (linkedSteps steps) := by
  refine ⟨[], [], around_unlinkedSteps hnodup ht, ?_⟩
  have hlinked : ∀ f : Step → Prop, [DecidablePred f] →
      (linkedSteps steps).filter (fun s => s.link = some t.key ∧ f s) =
        steps.filter fun s => s.link = some t.key ∧ f s := by
    intro f _
    rw [linkedSteps, List.filter_filter]
    refine List.filter_congr fun s _ => ?_
    cases s.link <;> simp
  rw [linkedBefore, linkedBefore, linkedBehind, linkedBehind, hlinked, hlinked]
  simp

theorem LinesUp.around_eq (h : LinesUp t line placed waiting)
    (hwait : ∀ x ∈ waiting, position? placed x = none) : around placed t = line := by
  have hlink : ∀ x ∈ waiting, x.link ≠ some t.key := fun x hx =>
    position?_eq_none_iff.mp (hwait x hx) t h.mem
  obtain ⟨a, b, hab, rfl⟩ := h
  have hbefore : linkedBefore waiting t = [] :=
    List.filter_eq_nil_iff.mpr fun x hx => by simp [hlink x hx]
  have hbehind : linkedBehind waiting t = [] :=
    List.filter_eq_nil_iff.mpr fun x hx => by simp [hlink x hx]
  simp [hab, hbefore, hbehind]

/-- Among the steps in their final order, the steps linked to an unlinked step come before it as
they were declared, or behind it the other way round, wherever other steps are. -/
theorem sequence_linked_around (m : OrderedMap String Step) (hm : ∀ e ∈ m.entries, e.1 = e.2.key)
    (ht : t ∈ m.values) (hlink : t.link = none) :
    (linked.sequence m).filter (fun s => s = t ∨ s.link = some t.key) =
      m.values.filter (fun s => s.link = some t.key ∧ s.offset ≤ 0) ++
        t :: (m.values.filter fun s => s.link = some t.key ∧ 0 < s.offset).reverse := by
  have hkeys := keys_nodup_of_keyed hm
  have hnodup : m.values.Nodup := hkeys.of_map
  obtain ⟨n, placed, tail, h⟩ := exists_settled m.values
  have hroot : t ∈ unlinkedSteps m.values := mem_unlinkedSteps.mpr ⟨ht, hlink⟩
  have hstart := linesUp_start hnodup hroot
  have hkeys' := ((unlinked_append_linkedSteps_perm m.values).symm.map Step.key).nodup hkeys
  have hend := hstart.passes n hkeys'
  rw [h.reached] at hend
  have htail : around tail t = [] := by
    refine around_eq_nil ?_ fun x hx => position?_eq_none_iff.mp (h.stuck x hx) t hend.mem
    exact fun htail => List.disjoint_of_nodup_append (h.perm.symm.nodup hnodup) hend.mem htail
  have hout : linked.sequence m = placed ++ tail := h.output
  calc around (linked.sequence m) t = around placed t ++ around tail t := by
        rw [hout, around_append]
    _ = linkedBefore m.values t ++ t :: (linkedBehind m.values t).reverse := by
        rw [htail, List.append_nil, hend.around_eq h.stuck]

/-- Two steps on either side of `root`, and one linked to the first of them. -/
def crowded : OrderedMap String Step :=
  keyed [(plain "c").after "root", (plain "a").before "root", (plain "n").after "c", plain "root",
    (plain "b").before "root", (plain "d").after "root"]

theorem sequence_linked_around_crowded :
    (∀ e ∈ crowded.entries, e.1 = e.2.key) ∧ plain "root" ∈ crowded.values ∧
    (plain "root").link = none ∧
    (linked.sequence crowded).filter
        (fun s => s = plain "root" ∨ s.link = some (plain "root").key) =
      [(plain "a").before "root", (plain "b").before "root", plain "root",
        (plain "d").after "root", (plain "c").after "root"] := by
  have hkeyed : ∀ e ∈ crowded.entries, e.1 = e.2.key := by decide
  have hmem : plain "root" ∈ crowded.values := by decide
  refine ⟨hkeyed, hmem, rfl, ?_⟩
  rw [sequence_linked_around crowded hkeyed hmem rfl]
  decide

end Sequencing

end StepTemplate
