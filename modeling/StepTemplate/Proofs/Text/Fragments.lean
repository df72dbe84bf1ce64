import Mathlib.Data.List.SplitBy
import StepTemplate.Proofs.Text.Words

namespace StepTemplate

/-!
# The fragments of a text

A text falls into fragments, its words and the characters between them, and there is only one way
to cut it like this. Replacing a name as a word deals with whole fragments: those that equal the
name give way to the value unless they are called, and all others stay.
-/

namespace Text

/-- A text falls into the longest stretches of word characters and the characters between them. No
word goes on behind its end, so two words never meet and none begins within a longer one. -/
inductive FallsInto : List Char → List (List Char) → Prop
  | nil : FallsInto [] []
  | word {w s : List Char} {ps : List (List Char)} (hw : IsWord w) (hs : StopsAt isWordChar s)
      (h : FallsInto s ps) : FallsInto (w ++ s) (w :: ps)
  | char {c : Char} {s : List Char} {ps : List (List Char)} (hc : isWordChar c = false)
      (h : FallsInto s ps) : FallsInto (c :: s) ([c] :: ps)

/-- Joins fragments with `value` in the place of those that equal `name` and have no `(` directly
behind them. -/
def exchange (name value : List Char) : List (List Char) → List Char
  | [] => []
  | p :: ps =>
    (if p = name ∧ ps.head? ≠ some ['('] then value else p) ++ exchange name value ps

variable {w s name value : List Char} {ps : List (List Char)} {c : Char}

/-! ## One way to cut a text -/

/-- Neighbours of this kind belong to one word. -/
def joins (c d : Char) : Bool :=
  isWordChar c && isWordChar d

theorem IsWord.isChain_joins (hw : IsWord w) : w.IsChain fun c d => joins c d = true := by
  have hpair : w.Pairwise fun c d => joins c d = true :=
    List.pairwise_of_forall_mem_list fun c hc d hd => by simp [joins, hw.chars c hc, hw.chars d hd]
  exact hpair.isChain

theorem FallsInto.splitBy_eq (h : FallsInto s ps) : s.splitBy joins = ps := by
  induction h with
  | nil => rfl
  | word hw hs h ih =>
      rw [List.splitBy_append, List.splitBy_of_isChain hw.ne_nil hw.isChain_joins, ih,
        List.singleton_append]
      intro c _ d hd
      simp [joins, hs d hd]
  | char hc h ih =>
      rw [← List.singleton_append, List.splitBy_append, ih]
      · rfl
      · intro c hc' d hd
        obtain rfl : _ = c := by simpa using hc'
        simp [joins, hc]

theorem exists_fallsInto (s : List Char) : ∃ ps, FallsInto s ps := by
  induction s using word_induction with
  | nil => exact ⟨[], .nil⟩
  | word w rest hw hrest ih =>
      obtain ⟨ps, hps⟩ := ih
      exact ⟨w :: ps, .word hw hrest hps⟩
  | char c s hc ih =>
      obtain ⟨ps, hps⟩ := ih
      exact ⟨[c] :: ps, .char hc hps⟩

theorem fallsInto_iff : FallsInto s ps ↔ s.splitBy joins = ps := by
  refine ⟨FallsInto.splitBy_eq, ?_⟩
  rintro rfl
  obtain ⟨qs, hqs⟩ := exists_fallsInto s
  rwa [hqs.splitBy_eq]

instance (s : List Char) (ps : List (List Char)) : Decidable (FallsInto s ps) :=
  decidable_of_iff _ fallsInto_iff.symm

theorem existsUnique_fallsInto (s : List Char) : ∃! ps, FallsInto s ps :=
  ⟨s.splitBy joins, fallsInto_iff.mpr rfl, fun _ h => h.splitBy_eq.symm⟩

/-! ## Exchanging whole fragments -/

/-- A character that is in no word is a fragment of its own. -/
theorem FallsInto.head?_eq_iff (h : FallsInto s ps) (hc : isWordChar c = false) :
    ps.head? = some [c] ↔ s.head? = some c := by
  cases h with
  | nil => simp
  | @word w s ps hw hs h =>
      obtain ⟨d, t, rfl⟩ := List.exists_cons_of_ne_nil hw.ne_nil
      have hne : d ≠ c := by
        rintro rfl
        exact hw.notMem hc List.mem_cons_self
      simp [hne]
  | char hd h => simp

theorem FallsInto.mapWords_eq (hname : IsWord name) (h : FallsInto s ps) :
    mapWords (fun w => if w = name then some value else none) s = exchange name value ps := by
  induction h with
  | nil => exact mapWords_nil
  | @word w s ps hw hs h ih =>
      have hcall := h.head?_eq_iff (c := '(') (by decide)
      rw [mapWords_append hw hs, ih, exchange]
      congr 1
      by_cases heq : w = name <;> by_cases hparen : s.head? = some '(' <;>
        simp [heq, hparen, hcall]
  | @char c s ps hc h ih =>
      have hne : [c] ≠ name := by
        rintro rfl
        exact hname.notMem hc List.mem_cons_self
      rw [mapWords_cons hc, ih, exchange, if_neg (fun h => hne h.1), List.singleton_append]

/-- Replacing a name as a word: a text is cut in one way into its words and the characters between
them, the words that equal the name and are not called give way to the value, and all else stays. -/
theorem replaceWord_fragmentwise (hname : IsWord name) (value s : List Char) :
    (∃! ps, FallsInto s ps) ∧
      ∀ ps, FallsInto s ps → replaceWord name value s = exchange name value ps := by
  refine ⟨existsUnique_fallsInto s, fun ps h => ?_⟩
  rw [replaceWord_eq_mapWords hname, h.mapWords_eq hname]

/-- Occurrences of `a_a` that overlap in a longer word, that are called, and that stand next to a
letter beyond ASCII. -/
def overlapping : List Char := "a_a_a a_a( éa_a a_a.x".toList

def overlappingFragments : List (List Char) :=
  ["a_a_a".toList, [' '], "a_a".toList, ['('], [' '], ['é'], "a_a".toList, [' '], "a_a".toList,
    ['.'], ['x']]

theorem replaceWord_fragmentwise_overlapping :
    IsWord "a_a".toList ∧ FallsInto overlapping overlappingFragments ∧
      (∃! ps, FallsInto overlapping ps) ∧
      replaceWord "a_a".toList "(a_a".toList overlapping = "a_a_a a_a( é(a_a (a_a.x".toList := by
  have hname : IsWord "a_a".toList := by decide
  have hfalls : FallsInto overlapping overlappingFragments := by decide
  obtain ⟨honce, hall⟩ := replaceWord_fragmentwise hname "(a_a".toList overlapping
  refine ⟨hname, hfalls, honce, ?_⟩
  rw [hall _ hfalls]
  decide

end Text

end StepTemplate
