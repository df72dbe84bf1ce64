import Mathlib
import StepTemplate.Proofs.OrderedMap
import StepTemplate.Proofs.Substitution.Parameters

namespace StepTemplate

/-!
# The references of a placeholder at once

The references of a placeholder are applied one after the other to a text that changes. If each of
them replaces words and no inserted value has the name of another argument among its words, the
outcome is that of replacing all the names at once, in whatever order they come.
-/

namespace Placeholder

open Text Argument

variable {t : Table} {p : Progress} {r : Reference} {start : List Char} {seen : List (List Char)}

/-- The value that a name stands for. -/
def valueOf? (t : Table) (name : List Char) : Option (List Char) :=
  (t.get? (String.ofList name)).map (·.value.toList)

/-- The values of the names in `seen`. -/
def valueAmong (t : Table) (seen : List (List Char)) (name : List Char) : Option (List Char) :=
  if seen.contains name then valueOf? t name else none

/-- The names to which the references of a placeholder lead. -/
def names (p : Placeholder) : List (List Char) :=
  p.referenceList.map Reference.name

/-- No value of a name has another of the names among its words. -/
def Inert (t : Table) (names : List (List Char)) : Prop :=
  ∀ n ∈ names, ∀ m ∈ names, n ≠ m → (valueOf? t m).isSome → ∀ v ∈ valueOf? t n, m ∉ words v

instance (t : Table) (names : List (List Char)) : Decidable (Inert t names) :=
  inferInstanceAs (Decidable (∀ n ∈ names, ∀ m ∈ names, n ≠ m → (valueOf? t m).isSome →
    ∀ v ∈ valueOf? t n, m ∉ words v))

/-- If the reference is bound, it replaces its name as a word and is remembered for it. -/
def Reference.Wordwise (t : Table) (r : Reference) : Prop :=
  ∀ b, t.get? (String.ofList r.name) = some b →
    IsWord r.name ∧ r.replacesWords b = true ∧
      ∀ s, r.apply b s = replaceWord r.name b.value.toList s

theorem valueAmong_append_of_some {v : List Char} (hseen : r.name ∉ seen)
    (h : valueOf? t r.name = some v) :
    valueAmong t (seen ++ [r.name]) =
      fun w => (valueAmong t seen w).or (if w = r.name then some v else none) := by
  funext w
  by_cases hw : w = r.name <;> simp [valueAmong, hw, h, hseen]

/-- What the names in `seen` have put in does not have a further name as a word. -/
theorem Inert.ne_of_mem_words {all : List (List Char)} {name w v u : List Char}
    (hinert : Inert t all) (hseen : seen ⊆ all) (hname : name ∈ all) (hnew : name ∉ seen)
    (hbound : (valueOf? t name).isSome) (hv : valueAmong t seen w = some v) (hu : u ∈ words v) :
    u ≠ name := by
  rw [valueAmong, Option.ite_none_right_eq_some, List.contains_iff_mem] at hv
  obtain ⟨hw, hvalue⟩ := hv
  have hne : w ≠ name := by
    rintro rfl
    exact hnew hw
  rintro rfl
  exact hinert w (hseen hw) u hname hne hbound v hvalue hu

/-! ## One reference, all references -/

/-- The text in which the names in `seen` have been replaced at once. -/
structure Progress.Replaced (t : Table) (start : List Char) (seen : List (List Char))
    (p : Progress) : Prop where
  text : p.text = mapWords (valueAmong t seen) start
  applied : ∀ x ∈ p.applied, boundName x ∈ p.replaced
  replaced : ∀ n, n ∈ p.replaced ↔ n ∈ seen ∧ (valueOf? t n).isSome

/-- A name seen before, or bound to nothing, changes nothing. -/
theorem Progress.Replaced.skip (h : p.Replaced t start seen)
    (hold : r.name ∈ seen ∨ valueOf? t r.name = none) :
    p.Replaced t start (seen ++ [r.name]) := by
  have hsame : valueAmong t (seen ++ [r.name]) = valueAmong t seen := by
    funext w
    by_cases hw : w = r.name
    · rcases hold with hold | hold <;> simp [valueAmong, hw, hold]
    · simp [valueAmong, hw]
  refine ⟨by rw [hsame, h.text], h.applied, fun n => ?_⟩
  rw [h.replaced, List.mem_append, List.mem_singleton]
  by_cases hn : n = r.name
  · rcases hold with hold | hold <;> simp [hn, hold]
  · simp [hn]

theorem Progress.Replaced.next {all : List (List Char)} (h : p.Replaced t start seen)
    (hr : r.Wordwise t) (hinert : Inert t all) (hseen : seen ⊆ all) (hname : r.name ∈ all) :
    (p.next t r).Replaced t start (seen ++ [r.name]) := by
  rw [Progress.next]
  split
  · next hskip =>
    have hmem : r.name ∈ p.replaced := hskip.elim (h.applied r.text) id
    exact h.skip (Or.inl ((h.replaced _).mp hmem).1)
  · next hskip =>
    rw [not_or] at hskip
    cases hb : t.get? (String.ofList r.name) with
    | none => exact h.skip (Or.inr (by simp [valueOf?, hb]))
    | some b =>
        have hsome : valueOf? t r.name = some b.value.toList := by simp [valueOf?, hb]
        obtain ⟨hword, hremember, happly⟩ := hr b hb
        have hnew : r.name ∉ seen := by
          intro hmem
          exact hskip.2 ((h.replaced _).mpr ⟨hmem, by simp [hsome]⟩)
        have hkeep : ∀ w v, valueAmong t seen w = some v → ∀ u ∈ words v,
            (if u = r.name then some b.value.toList else none) = none := by
          intro w v hv u hu
          exact if_neg (hinert.ne_of_mem_words hseen hname hnew (by simp [hsome]) hv hu)
        simp only [hremember, if_true]
        refine ⟨?_, ?_, ?_⟩
        · rw [happly, h.text, replaceWord_eq_mapWords hword, mapWords_mapWords hkeep,
            valueAmong_append_of_some hnew hsome]
        · intro x hx
          rw [List.mem_append]
          rcases List.mem_append.mp hx with hx | hx
          · exact Or.inl (h.applied x hx)
          · right
            rw [List.mem_singleton.mp hx]
            exact List.mem_singleton_self _
        · intro n
          rw [List.mem_append, List.mem_append, List.mem_singleton, h.replaced]
          by_cases hn : n = r.name
          · simp [hn, hsome]
          · simp [hn]

theorem Progress.Replaced.initial (t : Table) (s : List Char) :
    Progress.Replaced t s [] ⟨s, [], []⟩ := by
  have hnone : ∀ w ∈ words s, valueAmong t [] w = none := by simp [valueAmong]
  refine ⟨?_, by simp, by simp⟩
  simpa using (mapWords_append_of_inert hnone stopsAt_nil).symm

theorem Progress.Replaced.foldl {all : List (List Char)} {refs : List Reference}
    (h : p.Replaced t start seen) (hrefs : ∀ r ∈ refs, r.Wordwise t) (hinert : Inert t all)
    (hseen : seen ⊆ all) (hnames : ∀ r ∈ refs, r.name ∈ all) :
    (refs.foldl (Progress.next t) p).Replaced t start (seen ++ refs.map Reference.name) := by
  induction refs generalizing seen p with
  | nil => simpa using h
  | cons r refs ih =>
      have hr : r.name ∈ all := hnames r (by simp)
      have hnext := h.next (hrefs r (by simp)) hinert hseen hr
      have hseen' : seen ++ [r.name] ⊆ all := by
        intro n hn
        rcases List.mem_append.mp hn with hn | hn
        · exact hseen hn
        · rwa [List.mem_singleton.mp hn]
      have hrest := ih hnext (fun x hx => hrefs x (List.mem_cons_of_mem r hx)) hseen'
        (fun x hx => hnames x (List.mem_cons_of_mem r hx))
      simpa using hrest

/-! ## One placeholder -/

theorem Reference.wordwise (hnames : ∀ e ∈ t.entries, IsWord e.1.toList)
    (hmarked : ∀ e ∈ t.entries, e.2.kind ≠ .string → Scope.detect? e.2.value.toList = none)
    (hbare : r.isBareMain = true →
      ∀ b, t.get? (String.ofList r.name) = some b → b.kind ≠ .string) :
    r.Wordwise t := by
  intro b hb
  have hmem := OrderedMap.mem_entries_of_get? hb
  have hword : IsWord r.name := by simpa using hnames _ hmem
  cases hkind : b.kind with
  | string =>
      have hlong : r.isBareMain = false := by
        rw [← Bool.not_eq_true]
        exact fun h => hbare h b hb hkind
      exact ⟨hword, by simp [replacesWords, hkind, hlong], fun s => by simp [apply, hkind, hlong]⟩
  | entity =>
      have hplain := hmarked _ hmem (by simp [hkind])
      exact ⟨hword, by simp [replacesWords, hkind, hplain],
        fun s => by simp [apply, hkind, hplain]⟩
  | persisted =>
      have hplain := hmarked _ hmem (by simp [hkind])
      exact ⟨hword, by simp [replacesWords, hkind, hplain],
        fun s => by simp [apply, hkind, hplain]⟩

/-- The references of a placeholder, in whatever order they come, replace their names at once. -/
theorem foldl_next_eq_mapWords {q : Placeholder} {refs : List Reference}
    (hperm : refs.Perm q.referenceList) (hrefs : ∀ r ∈ q.referenceList, r.Wordwise t)
    (hinert : Inert t q.names) (s : List Char) :
    (refs.foldl (Progress.next t) ⟨s, [], []⟩).text = mapWords (valueAmong t q.names) s := by
  have hnames : ∀ n, n ∈ refs.map Reference.name ↔ n ∈ q.names := fun n =>
    (hperm.map Reference.name).mem_iff
  have hdone := (Progress.Replaced.initial t s).foldl (fun r hr => hrefs r (hperm.mem_iff.mp hr))
    hinert (List.nil_subset _) (fun r hr => (hnames r.name).mp (List.mem_map_of_mem hr))
  rw [hdone.text]
  congr 1
  funext w
  simp [valueAmong, hnames]

/-- Substituting in a text that is one placeholder replaces the names of its references at once,
and the order of the references does not matter. -/
theorem substituteAll_eq_mapWords {text : String} {q : Placeholder}
    (htext : spans text = [⟨0, text.utf8ByteSize, q⟩])
    (hnames : ∀ e ∈ t.entries, IsWord e.1.toList)
    (hmarked : ∀ e ∈ t.entries, e.2.kind ≠ .string → Scope.detect? e.2.value.toList = none)
    (hinert : Inert t q.names)
    (hmain : '.' ∈ q.main ∨ ∀ b, t.get? (String.ofList q.main) = some b → b.kind ≠ .string) :
    t.substituteAll text = String.ofList (mapWords (valueAmong t q.names) text.toList) ∧
      ∀ refs : List Reference, refs.Perm q.referenceList →
        (refs.foldl (Progress.next t) ⟨text.toList, [], []⟩).text =
          mapWords (valueAmong t q.names) text.toList := by
  obtain ⟨w, hw, rfl, hwtext, hcut⟩ := exists_written_of_spans htext
  have hrefs : ∀ r ∈ w.references.referenceList, r.Wordwise t := by
    intro r hr
    refine Reference.wordwise hnames hmarked fun hbare => ?_
    rcases List.mem_cons.mp hr with rfl | hr
    · have hdot := (Reference.isBareMain_iff hw.main_chars).mp hbare
      have hself : w.references.main = boundName w.references.main := by
        simpa [Reference.isBareMain, Reference.name] using hbare
      rw [Reference.name, ← hself]
      exact hmain.resolve_left hdot
    · obtain ⟨x, -, rfl⟩ := List.mem_map.mp hr
      simp [Reference.isBareMain] at hbare
  have hall : ∀ refs : List Reference, refs.Perm w.references.referenceList →
      (refs.foldl (Progress.next t) ⟨text.toList, [], []⟩).text =
        mapWords (valueAmong t w.references.names) text.toList :=
    fun _ hperm => foldl_next_eq_mapWords hperm hrefs hinert text.toList
  refine ⟨?_, hall⟩
  rw [Table.substituteAll, hcut, List.flatMap_singleton, Piece.substitute, hwtext, substituteIn,
    hall _ (List.Perm.refl _)]

/-! ## A cell of a grid -/

/-- One value has its own name as a word, another one opens a parenthesis. -/
def grid : Table :=
  Table.ofList [⟨"Grid", "Table", .entity⟩, ⟨"row", "the row", .string⟩, ⟨"col", "(x", .string⟩]

def cell : String := "\x7b\x7bGrid.cell(row, 'col', row.x, cell)\x7d\x7d"

def cellReferences : Placeholder :=
  ⟨"Grid.cell".toList, ["row".toList, "'col'".toList, "row.x".toList, "cell".toList]⟩

theorem substituteAll_eq_mapWords_cell :
    spans cell = [⟨0, cell.utf8ByteSize, cellReferences⟩] ∧
      (∀ e ∈ grid.entries, IsWord e.1.toList) ∧
      (∀ e ∈ grid.entries, e.2.kind ≠ .string → Scope.detect? e.2.value.toList = none) ∧
      Inert grid cellReferences.names ∧
      grid.substituteAll cell = "\x7b\x7bTable.cell(the row, '(x', the row.x, cell)\x7d\x7d" ∧
      (cellReferences.referenceList.reverse.foldl (Progress.next grid) ⟨cell.toList, [], []⟩).text =
        "\x7b\x7bTable.cell(the row, '(x', the row.x, cell)\x7d\x7d".toList := by
  have hspans : spans cell = [⟨0, cell.utf8ByteSize, cellReferences⟩] := by decide
  have hnames : ∀ e ∈ grid.entries, IsWord e.1.toList := by decide
  have hmarked : ∀ e ∈ grid.entries, e.2.kind ≠ .string →
      Scope.detect? e.2.value.toList = none := by decide
  have hinert : Inert grid cellReferences.names := by
    apply of_decide_eq_true
    cbv
  have hvalues : mapWords (valueAmong grid cellReferences.names) cell.toList =
      "\x7b\x7bTable.cell(the row, '(x', the row.x, cell)\x7d\x7d".toList := by cbv
  obtain ⟨hall, horder⟩ :=
    substituteAll_eq_mapWords hspans hnames hmarked hinert (Or.inl (by decide))
  refine ⟨hspans, hnames, hmarked, hinert, ?_, ?_⟩
  · rw [hall, hvalues, String.ofList_toList]
  · rw [horder _ (List.reverse_perm _), hvalues]

end Placeholder

end StepTemplate
