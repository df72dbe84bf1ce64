import Mathlib.Data.List.Nodup
import Mathlib.Logic.Relation
import StepTemplate.Sequence

namespace StepTemplate

/-!
# Chains of links

A step is linked to the step that has the key of its link. Keys are distinct, so a step has at
most one target, and its chain of links ends at no more than one unlinked step.
-/

namespace Sequencing

variable {steps : List Step} {s t r : Step}

/-- Among `steps` the link of `s` leads to `t`. -/
def LinksTo (steps : List Step) (s t : Step) : Prop :=
  t ∈ steps ∧ s.link = some t.key

/-- The chain of links of `s` ends at the unlinked step `r`. -/
def EndsAt (steps : List Step) (s r : Step) : Prop :=
  Relation.ReflTransGen (LinksTo steps) s r ∧ r.link = none

/-- The step `t` is on the chain of links of `s`, behind `s` itself. -/
def OnChain (steps : List Step) (s t : Step) : Prop :=
  Relation.TransGen (LinksTo steps) s t

/-- The chain of links of `s` reaches an unlinked step. -/
def Anchored (steps : List Step) (s : Step) : Prop :=
  ∃ r, EndsAt steps s r

theorem linksTo_unique (hkeys : (steps.map Step.key).Nodup) :
    Relator.RightUnique (LinksTo steps) := by
  rintro s t u ⟨ht, hst⟩ ⟨hu, hsu⟩
  exact List.inj_on_of_nodup_map hkeys ht hu (Option.some.inj (hst.symm.trans hsu))

theorem endsAt_self (h : r.link = none) : EndsAt steps r r :=
  ⟨.refl, h⟩

theorem EndsAt.of_linksTo (hst : LinksTo steps s t) (ht : EndsAt steps t r) :
    EndsAt steps s r :=
  ⟨.head hst ht.1, ht.2⟩

theorem eq_of_reflTransGen_of_unlinked (hr : r.link = none)
    (h : Relation.ReflTransGen (LinksTo steps) r s) : r = s := by
  rcases h.cases_head with rfl | ⟨t, ⟨-, ht⟩, -⟩
  · rfl
  · simp [hr] at ht

theorem EndsAt.unique (hkeys : (steps.map Step.key).Nodup) {r' : Step}
    (hr : EndsAt steps s r) (hr' : EndsAt steps s r') : r = r' := by
  rcases Relation.ReflTransGen.total_of_right_unique (linksTo_unique hkeys) hr.1 hr'.1 with h | h
  · exact eq_of_reflTransGen_of_unlinked hr.2 h
  · exact (eq_of_reflTransGen_of_unlinked hr'.2 h).symm

end Sequencing

end StepTemplate
