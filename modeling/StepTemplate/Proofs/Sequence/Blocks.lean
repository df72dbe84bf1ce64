import Mathlib.Logic.Function.Basic
import StepTemplate.Proofs.Sequence.Fixpoint

namespace StepTemplate

/-!
# Where the placed steps stand

A later insertion may part a step from its target, but only by steps that are linked to one of
the steps between them, and so have the target on their own chains. For the same reason the steps
whose chains end at one unlinked step stay together.
-/

namespace Sequencing

variable {steps placed placed' waiting p q : List Step} {s t x y z : Step} {P : Step → Prop}

/-! ## Steps between two others -/

/-- In a list `x` comes before `y`, and all that stand between them satisfy `P`. -/
def Before (P : Step → Prop) (l : List Step) (x y : Step) : Prop :=
  ∃ a b c, l = a ++ x :: (b ++ y :: c) ∧ ∀ u ∈ b, P u

theorem Beside.eq_or_mem {a b c : List Step} (h : Beside z t (a ++ x :: b) (c ++ y :: q)) :
    t = x ∨ t = y ∨ t ∈ b ++ c := by
  have hside := h.side
  split at hside
  · cases c with
    | nil => simp_all
    | cons u c => simp_all
  · rw [List.getLast?_append_of_ne_nil _ (by simp)] at hside
    have hmem := List.mem_of_mem_getLast? hside
    simp only [List.mem_cons] at hmem
    rcases hmem with rfl | hmem
    · exact Or.inl rfl
    · exact Or.inr (Or.inr (List.mem_append_left c hmem))

theorem Before.put_between {a b c d : List Step} (hbetween : ∀ u ∈ b ++ d, P u)
    (hb : Beside z t (a ++ x :: b) (d ++ y :: c)) (hz : t = x ∨ t = y ∨ P t → P z) :
    Before P (a ++ x :: b ++ z :: (d ++ y :: c)) x y := by
  refine ⟨a, b ++ z :: d, c, by simp, ?_⟩
  have hP : P z := hz (hb.eq_or_mem.imp_right fun h => h.imp_right (hbetween t))
  intro u hu
  rcases List.mem_append.mp hu with hu | hu
  · exact hbetween u (List.mem_append_left d hu)
  · rcases List.mem_cons.mp hu with rfl | hu
    · exact hP
    · exact hbetween u (List.mem_append_right b hu)

/-- A step put into the list leaves `x` before `y`; what it may add between them satisfies `P`
as soon as its own neighbour does or is one of the two. -/
theorem Before.put (h : Before P (p ++ q) x y) (hb : Beside z t p q)
    (hz : t = x ∨ t = y ∨ P t → P z) : Before P (p ++ z :: q) x y := by
  obtain ⟨a, b, c, heq, hbetween⟩ := h
  obtain ⟨a', rfl, rfl⟩ | ⟨p', rfl, hp'⟩ := List.append_eq_append_iff.mp heq
  · exact ⟨p ++ z :: a', b, c, by simp, hbetween⟩
  · cases p' with
    | nil =>
        obtain rfl : x :: (b ++ y :: c) = q := by simpa using hp'
        exact ⟨a ++ [z], b, c, by simp, hbetween⟩
    | cons x' p' =>
        obtain ⟨rfl, hq⟩ := List.cons_eq_cons.mp hp'
        obtain ⟨d, rfl, hd⟩ | ⟨d, rfl, rfl⟩ := List.append_eq_append_iff.mp hq
        · cases d with
          | nil =>
              obtain rfl : y :: c = q := by simpa using hd
              rw [List.append_nil] at hb ⊢
              exact Before.put_between (d := []) (by simpa using hbetween) hb hz
          | cons y' d =>
              obtain ⟨rfl, rfl⟩ := List.cons_eq_cons.mp hd
              exact ⟨a, b, d ++ z :: q, by simp, hbetween⟩
        · exact Before.put_between hbetween hb hz

/-- A linked step stands on the right side of its target, and every step between the two has the
target on its chain. -/
def Adjacent (steps placed : List Step) (s t : Step) : Prop :=
  if s.offset ≤ 0 then Before (OnChain steps · t) placed s t
  else Before (OnChain steps · t) placed t s

theorem Beside.adjacent (hb : Beside x t p q) : Adjacent steps (p ++ x :: q) x t := by
  have hside := hb.side
  rw [Adjacent]
  split at hside
  · next hoff =>
    obtain ⟨q', rfl⟩ := List.head?_eq_some_iff.mp hside
    rw [if_pos hoff]
    exact ⟨p, [], q', by simp, by simp⟩
  · next hoff =>
    obtain ⟨p', rfl⟩ := List.getLast?_eq_some_iff.mp hside
    rw [if_neg hoff]
    exact ⟨p', [], q, by simp, by simp⟩

theorem Adjacent.put (h : Adjacent steps (p ++ q) s t) (hst : LinksTo steps s t)
    (hb : Beside x y p q) (hxy : LinksTo steps x y) : Adjacent steps (p ++ x :: q) s t := by
  have hx : y = s ∨ y = t ∨ OnChain steps y t → OnChain steps x t := by
    rintro (rfl | rfl | hy)
    · exact .head hxy (.single hst)
    · exact .single hxy
    · exact .head hxy hy
  rw [Adjacent] at h ⊢
  split at h
  · next hoff =>
    rw [if_pos hoff]
    exact h.put hb hx
  · next hoff =>
    rw [if_neg hoff]
    exact h.put hb fun hy => hx (or_left_comm.mp hy)

/-- All placed steps stand beside their targets in this sense. -/
def AllAdjacent (steps placed : List Step) : Prop :=
  ∀ s ∈ placed, ∀ t, LinksTo steps s t → Adjacent steps placed s t

theorem Puts.allAdjacent (hkeys : (steps.map Step.key).Nodup)
    (hplaced : AllAnchored steps placed) (h : Puts waiting placed placed')
    (hadj : AllAdjacent steps placed) : AllAdjacent steps placed' := by
  obtain ⟨x, y, p, q, hx, -, rfl, rfl, hb⟩ := h
  have hxy : LinksTo steps x y := ⟨(hplaced y (List.mem_append.mpr hb.mem_or_mem)).1, hb.link⟩
  intro s hs t hst
  by_cases heq : s = x
  · subst heq
    obtain rfl := linksTo_unique hkeys hst hxy
    exact hb.adjacent
  · exact (hadj s (by simpa [heq] using hs) t hst).put hst hb hxy

theorem Grows.allAdjacent (hkeys : (steps.map Step.key).Nodup) (hsub : waiting ⊆ steps)
    (hplaced : AllAnchored steps placed) (h : Grows waiting placed placed')
    (hadj : AllAdjacent steps placed) : AllAdjacent steps placed' := by
  induction h with
  | refl => exact hadj
  | tail hgrows hput ih => exact hput.allAdjacent hkeys (Grows.allAnchored hsub hgrows hplaced) ih

theorem allAdjacent_unlinkedSteps (steps : List Step) :
    AllAdjacent steps (unlinkedSteps steps) := by
  rintro s hs t ⟨-, ht⟩
  simp [(mem_unlinkedSteps.mp hs).2] at ht

/-! ## Steps whose chains end alike -/

/-- The placed steps fall into one block for each root, in the order of the roots, and the chains
of a block end at its root. -/
structure InBlocks (steps roots : List Step) (block : Step → List Step) (placed : List Step) :
    Prop where
  placed_eq : placed = roots.flatMap block
  endsAt : ∀ r ∈ roots, ∀ s ∈ block r, EndsAt steps s r

/-- A place beside a step of a block lies in that block or at one of its ends. -/
theorem Beside.exists_block {roots : List Step} {block : Step → List Step}
    (hnodup : (p ++ q).Nodup) (hpq : p ++ q = roots.flatMap block) (hb : Beside x t p q) :
    ∃ r front back c d, roots = front ++ r :: back ∧ block r = c ++ d ∧ t ∈ block r ∧
      p = front.flatMap block ++ c ∧ q = d ++ back.flatMap block := by
  have ht : t ∈ roots.flatMap block := hpq ▸ List.mem_append.mpr hb.mem_or_mem
  obtain ⟨r, hr, htr⟩ := List.mem_flatMap.mp ht
  obtain ⟨front, back, rfl⟩ := List.append_of_mem hr
  obtain ⟨c, d, hcd⟩ := List.append_of_mem htr
  have hsplit : (front ++ r :: back).flatMap block =
      (front.flatMap block ++ c) ++ t :: (d ++ back.flatMap block) := by
    simp [hcd]
  rw [hsplit] at hpq
  have hunique : ∀ {a b}, p ++ q = a ++ t :: b →
      a = front.flatMap block ++ c ∧ b = d ++ back.flatMap block := by
    intro a b hab
    rw [hab, List.nodup_middle, List.nodup_cons, List.mem_append, not_or] at hnodup
    rw [hab] at hpq
    obtain ⟨ha, -, hb⟩ := (List.append_cons_inj_of_notMem hnodup.1.1 hnodup.1.2).mp hpq
    exact ⟨ha, hb⟩
  have hside := hb.side
  split at hside
  · obtain ⟨q', rfl⟩ := List.head?_eq_some_iff.mp hside
    obtain ⟨rfl, rfl⟩ := hunique rfl
    exact ⟨r, front, back, c, t :: d, rfl, hcd, htr, rfl, rfl⟩
  · obtain ⟨p', rfl⟩ := List.getLast?_eq_some_iff.mp hside
    obtain ⟨rfl, rfl⟩ := hunique (a := p') (b := q) (by simp)
    exact ⟨r, front, back, c ++ [t], d, rfl, by simp [hcd], htr, by simp, rfl⟩

theorem flatMap_update_of_notMem {roots : List Step} {r : Step} (hr : r ∉ roots)
    (block : Step → List Step) (l : List Step) :
    roots.flatMap (Function.update block r l) = roots.flatMap block := by
  refine List.flatMap_congr fun s hs => ?_
  rw [Function.update_of_ne]
  rintro rfl
  exact hr hs

theorem Puts.inBlocks {roots : List Step} {block : Step → List Step} (hroots : roots.Nodup)
    (hnodup : placed.Nodup) (hsub : placed ⊆ steps) (h : Puts waiting placed placed')
    (hblocks : InBlocks steps roots block placed) :
    ∃ block', InBlocks steps roots block' placed' := by
  obtain ⟨x, t, p, q, hx, -, rfl, rfl, hb⟩ := h
  obtain ⟨r, front, back, c, d, rfl, hcd, ht, rfl, rfl⟩ :=
    hb.exists_block hnodup hblocks.placed_eq
  rw [List.nodup_middle, List.nodup_cons, List.mem_append, not_or] at hroots
  have hxt : LinksTo steps x t := ⟨hsub (List.mem_append.mpr hb.mem_or_mem), hb.link⟩
  refine ⟨Function.update block r (c ++ x :: d), ?_, ?_⟩
  · simp [flatMap_update_of_notMem hroots.1.1, flatMap_update_of_notMem hroots.1.2]
  · intro r' hr' s hs
    by_cases hrr : r' = r
    · subst hrr
      rw [Function.update_self] at hs
      by_cases hsx : s = x
      · exact hsx ▸ (hblocks.endsAt r' hr' t ht).of_linksTo hxt
      · exact hblocks.endsAt r' hr' s (by simpa [hcd, hsx] using hs)
    · rw [Function.update_of_ne hrr] at hs
      exact hblocks.endsAt r' hr' s hs

theorem Puts.nodup (h : Puts waiting placed placed') (hnodup : placed.Nodup) :
    placed'.Nodup := by
  obtain ⟨x, t, p, q, -, hx, rfl, rfl, -⟩ := h
  exact List.nodup_middle.mpr (List.nodup_cons.mpr ⟨hx, hnodup⟩)

theorem Grows.inBlocks {roots : List Step} {block : Step → List Step} (hroots : roots.Nodup)
    (hsub : waiting ⊆ steps) (hplaced : AllAnchored steps placed) (hnodup : placed.Nodup)
    (h : Grows waiting placed placed') (hblocks : InBlocks steps roots block placed) :
    ∃ block', InBlocks steps roots block' placed' := by
  suffices hboth : placed'.Nodup ∧ ∃ block', InBlocks steps roots block' placed' from hboth.2
  induction h with
  | refl => exact ⟨hnodup, block, hblocks⟩
  | tail hgrows hput ih =>
      obtain ⟨hnodup', block', hblocks'⟩ := ih
      have hmem := fun s hs => (Grows.allAnchored hsub hgrows hplaced s hs).1
      exact ⟨hput.nodup hnodup', hput.inBlocks hroots hnodup' hmem hblocks'⟩

theorem inBlocks_unlinkedSteps (steps : List Step) :
    InBlocks steps (unlinkedSteps steps) (fun r => [r]) (unlinkedSteps steps) := by
  refine ⟨by simp, fun r hr s hs => ?_⟩
  obtain rfl := List.mem_singleton.mp hs
  exact endsAt_self (mem_unlinkedSteps.mp hr).2

theorem Before.append {l : List Step} (h : Before P l x y) (tail : List Step) :
    Before P (l ++ tail) x y := by
  obtain ⟨a, b, c, rfl, hbetween⟩ := h
  exact ⟨a, b, c ++ tail, by simp, hbetween⟩

/-- The placed steps come in blocks, one for each unlinked step and in the order of these, which
hold all the steps whose chains end there. A placed step stands before or behind its target as its
offset says, and every step between the two has the target on its own chain. -/
theorem sequence_linked_blocks (m : OrderedMap String Step)
    (hm : ∀ e ∈ m.entries, e.1 = e.2.key) :
    ∃ placed tail, linked.sequence m = placed ++ tail ∧
      (∀ s, s ∈ placed ↔ s ∈ m.values ∧ Anchored m.values s) ∧
      (∃ block : Step → List Step, placed = (unlinkedSteps m.values).flatMap block ∧
        ∀ r ∈ unlinkedSteps m.values,
          (block r).Nodup ∧ ∀ s, s ∈ block r ↔ s ∈ m.values ∧ EndsAt m.values s r) ∧
      ∀ s ∈ placed, ∀ t, LinksTo m.values s t →
        (s.offset ≤ 0 → Before (OnChain m.values · t) (linked.sequence m) s t) ∧
        (0 < s.offset → Before (OnChain m.values · t) (linked.sequence m) t s) := by
  have hkeys := keys_nodup_of_keyed hm
  have hnodup : m.values.Nodup := List.Nodup.of_map _ hkeys
  have hroots : (unlinkedSteps m.values).Nodup := hnodup.filter _
  obtain ⟨n, placed, tail, h⟩ := exists_settled m.values
  have hout : linked.sequence m = placed ++ tail := h.output
  have hgrows := h.grows hnodup
  have hanchored := allAnchored_unlinked m.values
  have hsub := linkedSteps_subset m.values
  refine ⟨placed, tail, hout, fun s => h.mem_placed_iff hnodup, ?_, ?_⟩
  · obtain ⟨block, hplaced, hends⟩ :=
      hgrows.inBlocks hroots hsub hanchored hroots (inBlocks_unlinkedSteps m.values)
    refine ⟨block, hplaced, fun r hr => ⟨?_, fun s => ⟨fun hs => ?_, fun hs => ?_⟩⟩⟩
    · have hplacedNodup := (h.perm.symm.nodup hnodup).of_append_left
      rw [hplaced] at hplacedNodup
      exact (List.nodup_flatMap.mp hplacedNodup).1 r hr
    · have hmem : s ∈ placed := hplaced ▸ List.mem_flatMap.mpr ⟨r, hr, hs⟩
      exact ⟨((h.mem_placed_iff hnodup).mp hmem).1, hends r hr s hs⟩
    · have hmem := h.mem_placed hnodup hs.1 ⟨r, hs.2⟩
      rw [hplaced] at hmem
      obtain ⟨r', hr', hs'⟩ := List.mem_flatMap.mp hmem
      rwa [hs.2.unique hkeys (hends r' hr' s hs')]
  · intro s hs t hst
    have hadj := hgrows.allAdjacent hkeys hsub hanchored
      (allAdjacent_unlinkedSteps m.values) s hs t hst
    rw [hout]
    constructor
    · intro hoff
      rw [Adjacent, if_pos hoff] at hadj
      exact hadj.append tail
    · intro hoff
      rw [Adjacent, if_neg (Int32.not_le.mpr hoff)] at hadj
      exact hadj.append tail

theorem sequence_linked_blocks_knotted :
    (∀ e ∈ knotted.entries, e.1 = e.2.key) ∧
    LinksTo knotted.values ((plain "b").after "a") ((plain "a").before "root") ∧
    Before (OnChain knotted.values · ((plain "a").before "root")) (linked.sequence knotted)
      ((plain "a").before "root") ((plain "b").after "a") := by
  have hkeyed : ∀ e ∈ knotted.entries, e.1 = e.2.key := by decide
  have hb : LinksTo knotted.values ((plain "b").after "a") ((plain "a").before "root") :=
    ⟨by decide, rfl⟩
  have ha : LinksTo knotted.values ((plain "a").before "root") (plain "root") :=
    ⟨by decide, rfl⟩
  have hends : EndsAt knotted.values ((plain "b").after "a") (plain "root") :=
    (endsAt_self rfl).of_linksTo ha |>.of_linksTo hb
  obtain ⟨placed, tail, -, hplaced, -, hside⟩ := sequence_linked_blocks knotted hkeyed
  have hmem : (plain "b").after "a" ∈ placed := (hplaced _).mpr ⟨by decide, _, hends⟩
  exact ⟨hkeyed, hb, (hside _ hmem _ hb).2 (by decide)⟩

end Sequencing

end StepTemplate
