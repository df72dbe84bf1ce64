import StepTemplate.Proofs.Sequence.Run

namespace StepTemplate

/-!
# Which steps are placed

The steps placed are those whose chain of links reaches an unlinked step. The others come behind
them as they were declared, and no step is lost or doubled.
-/

namespace Sequencing

variable {steps placed placed' waiting : List Step}

/-- The steps without a link, as declared. -/
def unlinkedSteps (steps : List Step) : List Step :=
  steps.filter (·.link.isNone)

/-- The steps with a link, as declared. -/
def linkedSteps (steps : List Step) : List Step :=
  steps.filter (·.link.isSome)

theorem mem_unlinkedSteps {s : Step} : s ∈ unlinkedSteps steps ↔ s ∈ steps ∧ s.link = none := by
  simp [unlinkedSteps]

theorem mem_linkedSteps {s : Step} : s ∈ linkedSteps steps ↔ s ∈ steps ∧ s.link.isSome = true := by
  simp [linkedSteps]

theorem linkedSteps_subset (steps : List Step) : linkedSteps steps ⊆ steps :=
  fun _ hs => (mem_linkedSteps.mp hs).1

theorem unlinked_append_linkedSteps_perm (steps : List Step) :
    (unlinkedSteps steps ++ linkedSteps steps).Perm steps := by
  have h := List.filter_append_perm (fun s : Step => s.link.isNone) steps
  simpa [unlinkedSteps, linkedSteps, Option.not_isNone] using h

/-! ## What every insertion keeps -/

theorem Puts.filter_isNone (hwait : ∀ x ∈ waiting, x.link.isSome = true)
    (h : Puts waiting placed placed') :
    placed'.filter (·.link.isNone) = placed.filter (·.link.isNone) := by
  obtain ⟨x, t, p, q, hx, -, rfl, rfl, -⟩ := h
  have hsome := hwait x hx
  simp [List.filter_append, Option.isNone_iff_eq_none, Option.isSome_iff_ne_none.mp hsome]

theorem Grows.filter_isNone (hwait : ∀ x ∈ waiting, x.link.isSome = true)
    (h : Grows waiting placed placed') :
    placed'.filter (·.link.isNone) = placed.filter (·.link.isNone) := by
  induction h with
  | refl => rfl
  | tail _ hput ih => rw [hput.filter_isNone hwait, ih]

/-- The steps placed are among the given ones, and their chains reach unlinked steps. -/
def AllAnchored (steps placed : List Step) : Prop :=
  ∀ s ∈ placed, s ∈ steps ∧ Anchored steps s

theorem Puts.allAnchored (hsub : waiting ⊆ steps) (h : Puts waiting placed placed')
    (hplaced : AllAnchored steps placed) : AllAnchored steps placed' := by
  obtain ⟨x, t, p, q, hx, -, rfl, rfl, hb⟩ := h
  obtain ⟨ht, r, hr⟩ := hplaced t (List.mem_append.mpr hb.mem_or_mem)
  intro s hs
  by_cases heq : s = x
  · exact heq ▸ ⟨hsub hx, r, hr.of_linksTo ⟨ht, hb.link⟩⟩
  · exact hplaced s (by simpa [heq] using hs)

theorem Grows.allAnchored (hsub : waiting ⊆ steps) (h : Grows waiting placed placed')
    (hplaced : AllAnchored steps placed) : AllAnchored steps placed' := by
  induction h with
  | refl => exact hplaced
  | tail _ hput ih => exact hput.allAnchored hsub ih

theorem allAnchored_unlinked (steps : List Step) : AllAnchored steps (unlinkedSteps steps) := by
  intro s hs
  obtain ⟨hmem, hlink⟩ := mem_unlinkedSteps.mp hs
  exact ⟨hmem, s, endsAt_self hlink⟩

/-! ## The final state -/

/-- How a sequence comes about: the state in which the loop stops after `n` passes. -/
structure Settled (steps : List Step) (n : Nat) (placed tail : List Step) : Prop where
  le_length : n ≤ steps.length
  reached : passes n (unlinkedSteps steps, linkedSteps steps) = (placed, tail)
  stuck : ∀ x ∈ tail, position? placed x = none
  unchanged : pass placed tail = (placed, tail)
  output : sequenceLinked steps = placed ++ tail

theorem exists_settled (steps : List Step) : ∃ n placed tail, Settled steps n placed tail := by
  obtain ⟨n, hn, ⟨placed, tail⟩, hstate, hnone, hpass, hout⟩ :=
    exists_passes_place (unlinkedSteps steps) (linkedSteps steps)
  exact ⟨n, placed, tail, Nat.le_trans hn (List.length_filter_le _ _), hstate, hnone, hpass, hout⟩

namespace Settled

variable {n : Nat} {tail : List Step}

theorem perm (h : Settled steps n placed tail) : (placed ++ tail).Perm steps := by
  have hperm := passes_perm n (unlinkedSteps steps) (linkedSteps steps)
  rw [h.reached] at hperm
  exact hperm.trans (unlinked_append_linkedSteps_perm steps)

theorem tail_sublist (h : Settled steps n placed tail) : tail.Sublist (linkedSteps steps) := by
  have hsub := passes_left_sublist n (unlinkedSteps steps) (linkedSteps steps)
  rwa [h.reached] at hsub

theorem grows (h : Settled steps n placed tail) (hnodup : steps.Nodup) :
    Grows (linkedSteps steps) (unlinkedSteps steps) placed := by
  have hgrows := passes_grows n ((unlinked_append_linkedSteps_perm steps).symm.nodup hnodup)
  rwa [h.reached] at hgrows

theorem allAnchored (h : Settled steps n placed tail) (hnodup : steps.Nodup) :
    AllAnchored steps placed :=
  (h.grows hnodup).allAnchored (linkedSteps_subset steps) (allAnchored_unlinked steps)

theorem unlinked_subset (h : Settled steps n placed tail) (hnodup : steps.Nodup) :
    unlinkedSteps steps ⊆ placed := by
  have hfilter := (h.grows hnodup).filter_isNone fun x hx => (mem_linkedSteps.mp hx).2
  intro s hs
  have hmem : s ∈ (unlinkedSteps steps).filter (·.link.isNone) := by
    simpa [mem_unlinkedSteps] using hs
  rw [← hfilter] at hmem
  exact List.mem_of_mem_filter hmem

/-- A step whose chain reaches an unlinked one is placed: no placed step could stop it. -/
theorem mem_placed (h : Settled steps n placed tail) (hnodup : steps.Nodup) {s : Step}
    (hs : s ∈ steps) (hanchored : Anchored steps s) : s ∈ placed := by
  obtain ⟨r, hchain, hr⟩ := hanchored
  induction hchain using Relation.ReflTransGen.head_induction_on with
  | refl => exact h.unlinked_subset hnodup (mem_unlinkedSteps.mpr ⟨hs, hr⟩)
  | head hst _ ih =>
      have ht := ih hst.1
      rcases List.mem_append.mp (h.perm.symm.subset hs) with hmem | hmem
      · exact hmem
      · exact absurd hst.2 (position?_eq_none_iff.mp (h.stuck _ hmem) _ ht)

theorem mem_placed_iff (h : Settled steps n placed tail) (hnodup : steps.Nodup) {s : Step} :
    s ∈ placed ↔ s ∈ steps ∧ Anchored steps s :=
  ⟨h.allAnchored hnodup s, fun hs => h.mem_placed hnodup hs.1 hs.2⟩

open Classical in
theorem filter_placed (h : Settled steps n placed tail) (hnodup : steps.Nodup) :
    placed.filter (fun s => ¬ Anchored steps s) = [] := by
  refine List.filter_eq_nil_iff.mpr fun s hs => ?_
  simpa using (h.allAnchored hnodup s hs).2

open Classical in
theorem tail_eq (h : Settled steps n placed tail) (hnodup : steps.Nodup) :
    tail = steps.filter fun s => ¬ Anchored steps s := by
  have htail : tail.filter (fun s => ¬ Anchored steps s) = tail := by
    refine List.filter_eq_self.mpr fun s hs => ?_
    have hnot : s ∉ placed := fun hs' =>
      List.disjoint_of_nodup_append (h.perm.symm.nodup hnodup) hs' hs
    have hmem : s ∈ steps := h.perm.subset (List.mem_append_right placed hs)
    simpa using fun hanchored => hnot (h.mem_placed hnodup hmem hanchored)
  have hlength := (h.perm.filter fun s => ¬ Anchored steps s).length_eq
  rw [List.filter_append, h.filter_placed hnodup, htail, List.nil_append] at hlength
  have hsub := (h.tail_sublist.trans List.filter_sublist).filter fun s => ¬ Anchored steps s
  rw [htail] at hsub
  exact hsub.eq_of_length hlength

end Settled

theorem sequence_perm (mode : Sequencing) (m : OrderedMap String Step) :
    (mode.sequence m).Perm m.values := by
  cases mode with
  | declared => exact .refl _
  | linked =>
      obtain ⟨n, placed, tail, h⟩ := exists_settled m.values
      rw [sequence, h.output]
      exact h.perm

theorem keys_nodup_of_keyed {m : OrderedMap String Step} (hm : ∀ e ∈ m.entries, e.1 = e.2.key) :
    (m.values.map Step.key).Nodup := by
  have hkeys : m.values.map Step.key = m.keys := by
    rw [OrderedMap.values, OrderedMap.keys, List.map_map]
    exact List.map_congr_left fun e he => (hm e he).symm
  exact hkeys ▸ m.keys_nodup

open Classical in
/-- Ordering by links ends and keeps all steps: each index of insertion lies within the list, the
output is a permutation of the input, and the unlinked steps stay in order. After finitely many
passes nothing changes any more; what is then not placed are the linked steps whose chain never
reaches an unlinked step, as declared. -/
theorem sequence_linked_fixpoint (m : OrderedMap String Step)
    (hm : ∀ e ∈ m.entries, e.1 = e.2.key) :
    (∀ placed x i, position? placed x = some i → i ≤ placed.length) ∧
    (linked.sequence m).Perm m.values ∧
    (linked.sequence m).filter (·.link.isNone) = m.values.filter (·.link.isNone) ∧
    ∃ n ≤ m.values.length, ∃ placed tail,
      passes n (unlinkedSteps m.values, linkedSteps m.values) = (placed, tail) ∧
      pass placed tail = (placed, tail) ∧
      linked.sequence m = placed ++ tail ∧
      tail = m.values.filter fun s => s.link.isSome ∧ ¬ Anchored m.values s := by
  have hnodup : m.values.Nodup := List.Nodup.of_map _ (keys_nodup_of_keyed hm)
  obtain ⟨n, placed, tail, h⟩ := exists_settled m.values
  have hout : linked.sequence m = placed ++ tail := h.output
  refine ⟨fun _ _ _ => position?_le_length, hout ▸ h.perm, ?_, n, h.le_length, placed, tail,
    h.reached, h.unchanged, hout, ?_⟩
  · have hplaced := (h.grows hnodup).filter_isNone fun x hx => (mem_linkedSteps.mp hx).2
    have htail : tail.filter (·.link.isNone) = [] := by
      refine List.filter_eq_nil_iff.mpr fun s hs => ?_
      have hsome := (mem_linkedSteps.mp (h.tail_sublist.subset hs)).2
      simpa [Option.isSome_iff_ne_none] using hsome
    rw [hout, List.filter_append, hplaced, htail, List.append_nil]
    simp [unlinkedSteps]
  · rw [h.tail_eq hnodup]
    refine List.filter_congr fun s _ => ?_
    have hlink : ¬ Anchored m.values s → s.link.isSome = true := by
      intro hnot
      by_contra hnone
      exact hnot ⟨s, endsAt_self (by simpa using hnone)⟩
    simpa using hlink

/-! ## A knotted map -/

def plain (key : String) : Step :=
  ⟨key, "click", OrderedMap.empty, none, 0, OrderedMap.empty⟩

/-- The map of steps by their own keys. -/
def keyed (steps : List Step) : OrderedMap String Step :=
  OrderedMap.ofList (steps.map fun s => (s.key, s))

/-- A chain declared backwards, a step linked to itself and one whose target is missing. -/
def knotted : OrderedMap String Step :=
  keyed [(plain "b").after "a", (plain "a").before "root", (plain "self").after "self",
    plain "root", (plain "lost").before "nowhere"]

example : (linked.sequence knotted).map Step.key = ["a", "b", "root", "self", "lost"] := by cbv

theorem sequence_linked_fixpoint_knotted :
    (∀ e ∈ knotted.entries, e.1 = e.2.key) ∧
    (linked.sequence knotted).Perm knotted.values ∧
    (linked.sequence knotted).filter (·.link.isNone) = [plain "root"] := by
  have hkeyed : ∀ e ∈ knotted.entries, e.1 = e.2.key := by decide
  obtain ⟨-, hperm, hfilter, -⟩ := sequence_linked_fixpoint knotted hkeyed
  refine ⟨hkeyed, hperm, ?_⟩
  rw [hfilter]
  decide

end Sequencing

end StepTemplate
