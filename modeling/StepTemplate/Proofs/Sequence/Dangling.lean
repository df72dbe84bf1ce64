import Mathlib.Data.Fintype.EquivFin
import Mathlib.Data.Fintype.Sets
import StepTemplate.Proofs.Sequence.Blocks

namespace StepTemplate

/-!
# Steps behind a missing target

A link whose target is missing leaves its step without a place, and with it every step whose chain
leads there. All of these are appended as they were declared. So such a step stands on its side of
its target only if it was declared there, although the target itself is not missing.
-/

namespace Sequencing

variable {steps : List Step} {s t : Step}

/-! ## Chains without cycles -/

/-- No step is on its own chain. -/
def Acyclic (steps : List Step) : Prop :=
  ∀ s ∈ steps, ¬ OnChain steps s s

/-- The chain of links of `s` leads to a step whose target is not among `steps`. -/
def Dangles (steps : List Step) (s : Step) : Prop :=
  ∃ d k, Relation.ReflTransGen (LinksTo steps) s d ∧ d.link = some k ∧ ∀ t ∈ steps, t.key ≠ k

theorem Dangles.of_linksTo (hst : LinksTo steps s t) (ht : Dangles steps t) :
    Dangles steps s := by
  obtain ⟨d, k, hchain, hlink, hmissing⟩ := ht
  exact ⟨d, k, .head hst hchain, hlink, hmissing⟩

theorem Dangles.not_anchored (hkeys : (steps.map Step.key).Nodup) (hs : Dangles steps s) :
    ¬ Anchored steps s := by
  obtain ⟨d, k, hsd, hlink, hmissing⟩ := hs
  rintro ⟨r, hsr, hr⟩
  have hstuck : ∀ t, ¬ LinksTo steps d t := by
    rintro t ⟨ht, hdt⟩
    exact hmissing t ht (Option.some.inj (hdt.symm.trans hlink))
  have heq : d = r := by
    rcases Relation.ReflTransGen.total_of_right_unique (linksTo_unique hkeys) hsd hsr with h | h
    · exact ((Relation.reflTransGen_iff_eq hstuck).mp h).symm
    · exact (eq_of_reflTransGen_of_unlinked hr h).symm
  rw [heq, hr] at hlink
  exact absurd hlink (by simp)

theorem Acyclic.wellFounded (hacyclic : Acyclic steps) :
    WellFounded fun t s : { s // s ∈ steps } => OnChain steps s.1 t.1 := by
  have htrans : IsTrans { s // s ∈ steps } fun t s => OnChain steps s.1 t.1 :=
    ⟨fun _ _ _ hts hur => Relation.TransGen.trans hur hts⟩
  have hirrefl : Std.Irrefl fun t s : { s // s ∈ steps } => OnChain steps s.1 t.1 :=
    ⟨fun s => hacyclic s.1 s.2⟩
  exact Finite.wellFounded_of_trans_of_irrefl _

theorem Acyclic.anchored_or_dangles (hacyclic : Acyclic steps) (hs : s ∈ steps) :
    Anchored steps s ∨ Dangles steps s := by
  -- along the chain: it never returns to one of the finitely many steps, so it comes to an end
  induction hx : (⟨s, hs⟩ : { s // s ∈ steps }) using hacyclic.wellFounded.induction
    generalizing s with
  | h x ih =>
      subst hx
      cases hlink : s.link with
      | none => exact Or.inl ⟨s, endsAt_self hlink⟩
      | some k =>
          by_cases hmissing : ∀ t ∈ steps, t.key ≠ k
          · exact Or.inr ⟨s, k, .refl, hlink, hmissing⟩
          · simp only [not_forall, not_not] at hmissing
            obtain ⟨t, ht, rfl⟩ := hmissing
            have hst : LinksTo steps s t := ⟨ht, hlink⟩
            rcases ih ⟨t, ht⟩ (.single hst) ht rfl with ⟨r, hr⟩ | hdangles
            · exact Or.inl ⟨r, hr.of_linksTo hst⟩
            · exact Or.inr (hdangles.of_linksTo hst)

/-- Among steps without a cycle of links the chains that reach no unlinked step are those that
lead to a missing target. -/
theorem Acyclic.dangles_iff (hacyclic : Acyclic steps) (hkeys : (steps.map Step.key).Nodup)
    (hs : s ∈ steps) : Dangles steps s ↔ ¬ Anchored steps s :=
  ⟨fun h => h.not_anchored hkeys, fun h => (hacyclic.anchored_or_dangles hs).resolve_left h⟩

/-! ## The side of the target -/

/-- A step and its target in the order which the offset of the step names. -/
def inOrder (s t : Step) : List Step :=
  if s.offset ≤ 0 then [s, t] else [t, s]

/-- In a list `s` stands on its side of `t`. -/
def OnItsSide (l : List Step) (s t : Step) : Prop :=
  (inOrder s t).Sublist l

instance (l : List Step) (s t : Step) : Decidable (OnItsSide l s t) :=
  inferInstanceAs (Decidable ((inOrder s t).Sublist l))

theorem Before.pair_sublist {P : Step → Prop} {l : List Step} (h : Before P l s t) :
    [s, t].Sublist l := by
  obtain ⟨a, b, c, rfl, -⟩ := h
  have ht : [t].Sublist (b ++ t :: c) := by simp
  exact (ht.cons_cons s).trans (List.sublist_append_right a _)

theorem Adjacent.onItsSide {placed : List Step} (h : Adjacent steps placed s t) :
    OnItsSide placed s t := by
  rw [Adjacent] at h
  rw [OnItsSide, inOrder]
  split at h
  · next hoff =>
    rw [if_pos hoff]
    exact h.pair_sublist
  · next hoff =>
    rw [if_neg hoff]
    exact h.pair_sublist

theorem OnItsSide.filter {l : List Step} {p : Step → Bool} (hs : p s = true) (ht : p t = true)
    (h : OnItsSide l s t) : OnItsSide (l.filter p) s t := by
  have hkept : (inOrder s t).filter p = inOrder s t := by
    rw [inOrder]
    split <;> simp [hs, ht]
  have hsub := List.Sublist.filter p h
  rwa [hkept] at hsub

/-! ## The steps that are appended -/

open Classical in
/-- The steps whose chains reach no unlinked step come in the order in which they were declared. -/
theorem Settled.filter_not_anchored {n : Nat} {placed tail : List Step}
    (h : Settled steps n placed tail) (hnodup : steps.Nodup) :
    (sequenceLinked steps).filter (fun s => ¬ Anchored steps s) =
      steps.filter fun s => ¬ Anchored steps s := by
  rw [h.output, List.filter_append, h.filter_placed hnodup, h.tail_eq hnodup, List.filter_filter]
  simp

theorem onItsSide_of_anchored (hkeys : (steps.map Step.key).Nodup) (hs : s ∈ steps)
    (hst : LinksTo steps s t) (hanchored : Anchored steps s) :
    OnItsSide (sequenceLinked steps) s t := by
  have hnodup : steps.Nodup := List.Nodup.of_map _ hkeys
  obtain ⟨n, placed, tail, h⟩ := exists_settled steps
  have hmem : s ∈ placed := h.mem_placed hnodup hs hanchored
  have hadjacent : Adjacent steps placed s t :=
    (h.grows hnodup).allAdjacent hkeys (linkedSteps_subset steps) (allAnchored_unlinked steps)
      (allAdjacent_unlinkedSteps steps) s hmem t hst
  rw [h.output]
  exact hadjacent.onItsSide.trans (List.sublist_append_left placed tail)

theorem onItsSide_iff_of_not_anchored (hnodup : steps.Nodup) (hs : ¬ Anchored steps s)
    (ht : ¬ Anchored steps t) :
    OnItsSide (sequenceLinked steps) s t ↔ OnItsSide steps s t := by
  classical
  obtain ⟨n, placed, tail, h⟩ := exists_settled steps
  have hfilter := h.filter_not_anchored hnodup
  constructor
  · intro hside
    have hkept := hside.filter (p := fun s => ¬ Anchored steps s) (by simpa) (by simpa)
    rw [hfilter] at hkept
    exact hkept.trans List.filter_sublist
  · intro hside
    have hkept := hside.filter (p := fun s => ¬ Anchored steps s) (by simpa) (by simpa)
    rw [← hfilter] at hkept
    exact hkept.trans List.filter_sublist

/-- Without cycles of links a step stands on its side of a target that is not missing, unless its
chain leads to a missing one further on: then it does so just if it was declared there. -/
theorem sequence_linked_onItsSide_iff (m : OrderedMap String Step)
    (hm : ∀ e ∈ m.entries, e.1 = e.2.key) (hacyclic : Acyclic m.values) (hs : s ∈ m.values)
    (hst : LinksTo m.values s t) :
    OnItsSide (linked.sequence m) s t ↔ ¬ Dangles m.values s ∨ OnItsSide m.values s t := by
  have hkeys := keys_nodup_of_keyed hm
  have hout : linked.sequence m = sequenceLinked m.values := rfl
  rw [hout, hacyclic.dangles_iff hkeys hs, not_not]
  by_cases hanchored : Anchored m.values s
  · exact iff_of_true (onItsSide_of_anchored hkeys hs hst hanchored) (Or.inl hanchored)
  · have ht : ¬ Anchored m.values t := by
      rintro ⟨r, hr⟩
      exact hanchored ⟨r, hr.of_linksTo hst⟩
    rw [onItsSide_iff_of_not_anchored (List.Nodup.of_map _ hkeys) hanchored ht]
    exact ⟨Or.inr, fun h => h.resolve_left hanchored⟩

/-! ## A chain that hangs in the air -/

theorem acyclic_of_rank (rank : Step → Nat)
    (h : ∀ s ∈ steps, ∀ t ∈ steps, s.link = some t.key → rank t < rank s) : Acyclic steps := by
  have hchain : ∀ s ∈ steps, ∀ t, OnChain steps s t → t ∈ steps ∧ rank t < rank s := by
    intro s hs t hst
    induction hst with
    | single hst => exact ⟨hst.1, h s hs _ hst.1 hst.2⟩
    | tail _ htu ih =>
        obtain ⟨ht, hlt⟩ := ih
        exact ⟨htu.1, Nat.lt_trans (h _ ht _ htu.1 htu.2) hlt⟩
  intro s hs hss
  exact Nat.lt_irrefl _ (hchain s hs s hss).2

/-- The target of `b` is missing. Both `a` and `c` are linked to `b`, but only `c` is declared on
its side of it. -/
def hanging : OrderedMap String Step :=
  keyed [(plain "b").before "nowhere", (plain "a").before "b", (plain "c").after "b"]

theorem acyclic_hanging : Acyclic hanging.values :=
  acyclic_of_rank (fun s => if s.key = "b" then 0 else 1) (by decide)

theorem sequence_linked_onItsSide_iff_hanging :
    (∀ e ∈ hanging.entries, e.1 = e.2.key) ∧ Acyclic hanging.values ∧
    LinksTo hanging.values ((plain "c").after "b") ((plain "b").before "nowhere") ∧
    Dangles hanging.values ((plain "c").after "b") ∧
    OnItsSide (linked.sequence hanging) ((plain "c").after "b") ((plain "b").before "nowhere") := by
  have hkeyed : ∀ e ∈ hanging.entries, e.1 = e.2.key := by decide
  have hcb : LinksTo hanging.values ((plain "c").after "b") ((plain "b").before "nowhere") :=
    ⟨by decide, rfl⟩
  have hdangles : Dangles hanging.values ((plain "c").after "b") :=
    ⟨(plain "b").before "nowhere", "nowhere", .single hcb, rfl, by decide⟩
  have hiff := sequence_linked_onItsSide_iff hanging hkeyed acyclic_hanging (by decide) hcb
  exact ⟨hkeyed, acyclic_hanging, hcb, hdangles, hiff.mpr (Or.inr (by decide))⟩

/-- The target of `a` is there, and yet `a` comes behind it. -/
theorem not_onItsSide_hanging :
    (∀ e ∈ hanging.entries, e.1 = e.2.key) ∧ Acyclic hanging.values ∧
    (plain "a").before "b" ∈ hanging.values ∧
    LinksTo hanging.values ((plain "a").before "b") ((plain "b").before "nowhere") ∧
    ¬ OnItsSide (linked.sequence hanging) ((plain "a").before "b")
      ((plain "b").before "nowhere") := by
  have hstart : linked.sequence hanging = place [] hanging.values := rfl
  have hpass : pass [] hanging.values = ([], hanging.values) := by decide
  have hout : linked.sequence hanging = hanging.values := by
    rw [hstart, place, hpass, if_neg (Nat.lt_irrefl _), List.nil_append]
  refine ⟨by decide, acyclic_hanging, by decide, ⟨by decide, rfl⟩, ?_⟩
  rw [hout]
  decide

end Sequencing

end StepTemplate
