import Mathlib.Data.List.InsertIdx
import StepTemplate.Proofs.OrderedMap
import StepTemplate.Proofs.Sequence.Fixpoint

namespace StepTemplate

/-!
# Steps under other keys

Ordering by links compares keys with links and looks at nothing else but offsets. If all keys and
links are renamed alike, and different keys stay different, each comparison has the same outcome
as before, and so each step goes to the same place.
-/

namespace Sequencing

/-! ## The map of steps by their keys -/

theorem keys_keyed (steps : List Step) : (keyed steps).keys = (steps.map Step.key).eraseDups := by
  rw [keyed, OrderedMap.keys_ofList, List.map_map]
  rfl

theorem entries_keyed (steps : List Step) :
    (keyed steps).entries = (keyed steps).values.map fun s => (s.key, s) := by
  rw [OrderedMap.values, List.map_map]
  refine (List.map_id _).symm.trans (List.map_congr_left fun e he => ?_)
  obtain ⟨s, -, rfl⟩ := List.mem_map.mp (OrderedMap.mem_of_mem_entries_ofList he)
  rfl

theorem get?_keyed (steps : List Step) (key : String) :
    (keyed steps).get? key = steps.findRev? (·.key == key) := by
  rw [keyed, OrderedMap.get?_ofList, List.findRev?_eq_find?_reverse, ← List.map_reverse,
    List.find?_map, Option.map_map, List.findRev?_eq_find?_reverse]
  exact Option.map_id_apply

/-! ## Renaming -/

variable {ρ : String → String} {f : Step → Step}

/-- What `f` makes of a step has the key and the link of the step renamed by `ρ`. -/
structure Renames (ρ : String → String) (f : Step → Step) : Prop where
  injective : Function.Injective ρ
  key : ∀ s, (f s).key = ρ s.key
  link : ∀ s, (f s).link = s.link.map ρ
  offset : ∀ s, (f s).offset = s.offset

namespace Renames

theorem findIdx?_map (hf : Renames ρ f) (placed : List Step) (k : String) :
    (placed.map f).findIdx? (·.key == ρ k) = placed.findIdx? (·.key == k) := by
  have hsame : ((fun s : Step => s.key == ρ k) ∘ f) = fun s => s.key == k := by
    funext s
    rw [Function.comp_apply, hf.key, Bool.eq_iff_iff, beq_iff_eq, beq_iff_eq]
    exact hf.injective.eq_iff
  rw [List.findIdx?_map, hsame]

theorem position?_map (hf : Renames ρ f) (placed : List Step) (s : Step) :
    position? (placed.map f) (f s) = position? placed s := by
  cases hlink : s.link with
  | none =>
      have hflink : (f s).link = none := by rw [hf.link, hlink, Option.map_none]
      simp only [position?, hlink, hflink, Option.bind_eq_bind, Option.bind_none]
  | some k =>
      have hflink : (f s).link = some (ρ k) := by rw [hf.link, hlink, Option.map_some]
      rw [position?_of_link hlink, position?_of_link hflink, hf.findIdx?_map, hf.offset]

theorem pass_map (hf : Renames ρ f) (placed waiting : List Step) :
    pass (placed.map f) (waiting.map f) =
      ((pass placed waiting).1.map f, (pass placed waiting).2.map f) := by
  induction waiting generalizing placed with
  | nil => rfl
  | cons s waiting ih =>
      rw [List.map_cons, pass, pass, hf.position?_map]
      cases position? placed s with
      | some i =>
          have hinsert : (placed.map f).insertIdx i (f s) = (placed.insertIdx i s).map f :=
            (List.map_insertIdx f placed i s).symm
          simp only [hinsert, ih]
      | none => simp only [ih, List.map_cons]

/-- The loop takes the same turns, since a pass leaves as many steps as before. -/
theorem place_map (hf : Renames ρ f) (placed waiting : List Step) :
    place (placed.map f) (waiting.map f) = (place placed waiting).map f := by
  induction placed, waiting using place.induct with
  | case1 placed waiting hlt ih =>
      have hlt' : ((pass placed waiting).2.map f).length < (waiting.map f).length := by
        simpa using hlt
      rw [place.eq_def placed waiting, if_pos hlt, ← ih,
        place.eq_def (placed.map f) (waiting.map f), hf.pass_map, if_pos hlt']
  | case2 placed waiting hlt =>
      have hlt' : ¬ ((pass placed waiting).2.map f).length < (waiting.map f).length := by
        simpa using hlt
      rw [place.eq_def placed waiting, if_neg hlt, List.map_append,
        place.eq_def (placed.map f) (waiting.map f), hf.pass_map, if_neg hlt']

theorem sequenceLinked_map (hf : Renames ρ f) (steps : List Step) :
    sequenceLinked (steps.map f) = (sequenceLinked steps).map f := by
  have hnone : ((fun s : Step => s.link.isNone) ∘ f) = fun s => s.link.isNone := by
    funext s
    rw [Function.comp_apply, hf.link, Option.isNone_map]
  have hsome : ((fun s : Step => s.link.isSome) ∘ f) = fun s => s.link.isSome := by
    funext s
    rw [Function.comp_apply, hf.link, Option.isSome_map]
  rw [sequenceLinked, sequenceLinked, List.filter_map, List.filter_map, hnone, hsome,
    hf.place_map]

/-! ## Steps with one key collapse alike -/

theorem entries_keyed_map (hf : Renames ρ f) (steps : List Step) :
    (keyed (steps.map f)).entries = (keyed steps).entries.map (Prod.map ρ f) := by
  have hentries : (steps.map f).map (fun s => (s.key, s)) =
      (steps.map fun s => (s.key, s)).map (Prod.map ρ f) := by
    simp [hf.key, Function.comp_def]
  rw [keyed, hentries, OrderedMap.entries_ofList_map hf.injective, keyed]

theorem values_keyed_map (hf : Renames ρ f) (steps : List Step) :
    (keyed (steps.map f)).values = (keyed steps).values.map f := by
  rw [OrderedMap.values, OrderedMap.values, hf.entries_keyed_map, List.map_map, List.map_map]
  rfl

theorem sequence_keyed_map (hf : Renames ρ f) (mode : Sequencing) (steps : List Step) :
    mode.sequence (keyed (steps.map f)) = (mode.sequence (keyed steps)).map f := by
  cases mode with
  | declared => exact hf.values_keyed_map steps
  | linked =>
      rw [sequence, sequence, hf.values_keyed_map]
      exact hf.sequenceLinked_map _

end Renames

end Sequencing

end StepTemplate
