import Mathlib.Data.List.Chain
import StepTemplate.Proofs.OrderedMap
import StepTemplate.Proofs.Placeholder.Scanning
import StepTemplate.Proofs.Scope
import StepTemplate.Proofs.Text.Pieces
import StepTemplate.Proofs.Text.Runs
import StepTemplate.Substitution

namespace StepTemplate

/-!
# Scope marks in a substituted text

Marks come into a text in two ways: the braces of a placeholder become marks, and an entry of a
parameter list is put between marks. All marks have one length, and wherever they are put no mark
stands next to them; later replacements pass marks by. So no marks ever join.
-/

namespace Placeholder

open Text Argument

variable {m : Scope} {t : Table} {b : Binding} {r : Reference} {p : Progress} {w : Written}
  {s : List Char}

/-! ## References without a mark -/

theorem mem_of_mem_boundName {c : Char} {reference : List Char} (h : c ∈ boundName reference) :
    c ∈ reference := by
  rw [boundName] at h
  split at h
  · exact (List.takeWhile_sublist _).subset h
  · exact mem_of_mem_strip h

theorem Reference.notMem_name (hr : '$' ∉ r.text) : '$' ∉ r.name :=
  fun h => hr (mem_of_mem_boundName h)

/-- An entry of a parameter list: it is not empty, and it starts with no character that may stand
behind an entry. -/
structure IsEntry (e : List Char) : Prop where
  ne_nil : e ≠ []
  head : ∀ c ∈ e.head?, c ≠ ')' ∧ c ≠ ',' ∧ isBlank c = false

theorem isEntry_of_mem_parameters (hw : w.Formed) {e : List Char}
    (he : e ∈ w.references.parameters) : IsEntry e ∧ ∀ c ∈ e, c ∈ w.list := by
  obtain ⟨hmap, hne⟩ := List.mem_filter.mp he
  obtain ⟨piece, hpiece, rfl⟩ := List.mem_map.mp hmap
  have hlist : ∀ c ∈ piece, c ∈ w.list := fun c hc => mem_of_mem_pieces hpiece hc
  refine ⟨⟨by simpa using hne, fun c hc => ?_⟩, fun c hc => hlist c (mem_of_mem_strip hc)⟩
  have hmem : c ∈ piece := mem_of_mem_strip (List.mem_of_mem_head? hc)
  refine ⟨ne_of_isListChar (hw.list_chars c (hlist c hmem)) (by decide), ?_,
    stopsAt_strip isBlank piece c hc⟩
  rintro rfl
  exact sep_notMem_of_mem_pieces hpiece hmem

/-! ## Values without a mark and wrapped values -/

/-- A value that brings no marks but `m`: it is not empty and free of marks, or, unless it stands
for itself, wrapped in `m`. -/
def IsMarked (m : Scope) (b : Binding) : Prop :=
  (b.value.toList ≠ [] ∧ '$' ∉ b.value.toList) ∨
    b.kind ≠ .string ∧ ∃ u, u ≠ [] ∧ (∀ c ∈ u, isMainChar c = true) ∧ b.value.toList = m.wrap u

theorem notMem_of_isMainChar {u : List Char} (hu : ∀ c ∈ u, isMainChar c = true) : '$' ∉ u := by
  intro h
  exact absurd (hu '$' h) (by decide)

theorem detect?_wrap {u : List Char} (hne : u ≠ []) (hu : ∀ c ∈ u, isMainChar c = true) :
    Scope.detect? (m.wrap u) = some m := by
  have hsingle : ∀ c ∈ u, Scope.isSingleChar c = true := by
    intro c hc
    have hmain := hu c hc
    simp only [isMainChar, Bool.or_eq_true, beq_iff_eq] at hmain
    rcases hmain with ((hword | rfl) | rfl) | rfl <;> simp [Scope.isSingleChar, *]
  have hdouble : ∀ c ∈ u, Scope.isDoubleChar c = true := by
    intro c hc
    have hmain := hu c hc
    simp only [isMainChar, Bool.or_eq_true, beq_iff_eq] at hmain
    rcases hmain with ((hword | rfl) | rfl) | rfl <;> simp [Scope.isDoubleChar, *]
  rw [Scope.detect?_wrap_eq hne (notMem_of_isMainChar hu), if_pos (List.all_eq_true.mpr hsingle)]
  cases m with
  | single => rw [if_neg (by simp)]
  | double => rw [if_pos ⟨rfl, List.all_eq_true.mpr hdouble⟩]

theorem Reference.apply_of_free (hb : '$' ∉ b.value.toList) :
    ∃ accept needle, ('$' ∉ r.text → '$' ∉ needle) ∧
      ∀ s, r.apply b s = replaceWhere accept needle b.value.toList s := by
  have hword : ∃ accept needle, ('$' ∉ r.text → '$' ∉ needle) ∧
      ∀ s, replaceWord r.name b.value.toList s = replaceWhere accept needle b.value.toList s :=
    ⟨isWholeWord, r.name, r.notMem_name, fun _ => rfl⟩
  have hdetect := Scope.detect?_of_notMem hb
  cases hk : b.kind with
  | string =>
      by_cases hbare : r.isBareMain = true
      · refine ⟨fun _ _ => true, '{' :: '{' :: (r.name ++ ['}', '}']), fun hr => ?_, fun s => ?_⟩
        · simp [r.notMem_name hr]
        · simp [apply, hk, hbare, replaceAll]
      · simpa [apply, hk, hbare] using hword
  | entity => simpa [apply, hk, hdetect] using hword
  | persisted => simpa [apply, hk, hdetect] using hword

theorem Reference.apply_of_detect (hkind : b.kind ≠ .string)
    (hdetect : Scope.detect? b.value.toList = some m) (s : List Char) :
    (r.position = .main → r.apply b s = r.scopeMain m b.value.toList s) ∧
      (r.position = .parameter → r.apply b s = r.scopeParameter m b.value.toList s) := by
  constructor
  · intro hpos
    cases hk : b.kind with
    | string => exact absurd hk hkind
    | entity => simp [apply, hk, hdetect, hpos]
    | persisted => simp [apply, hk, hdetect, hpos]
  · intro hpos
    cases hk : b.kind with
    | string => exact absurd hk hkind
    | entity => simp [apply, hk, hdetect, hpos]
    | persisted => simp [apply, hk, hdetect, hpos]

theorem Reference.apply_of_plain (hkind : b.kind ≠ .string)
    (hdetect : Scope.detect? b.value.toList = none) (s : List Char) :
    r.apply b s = replaceWord r.name b.value.toList s := by
  cases hk : b.kind with
  | string => exact absurd hk hkind
  | entity => simp [apply, hk, hdetect]
  | persisted => simp [apply, hk, hdetect]

theorem Reference.replacesWords_of_detect (hkind : b.kind ≠ .string)
    (hdetect : Scope.detect? b.value.toList = some m) :
    r.replacesWords b = (r.position == .main) := by
  cases hk : b.kind with
  | string => exact absurd hk hkind
  | entity => simp [replacesWords, hk, hdetect]
  | persisted => simp [replacesWords, hk, hdetect]

theorem Reference.apply_of_wrapped {u : List Char} (hkind : b.kind ≠ .string) (hne : u ≠ [])
    (hu : ∀ c ∈ u, isMainChar c = true) (hvalue : b.value.toList = m.wrap u) :
    (r.position = .main → r.apply b s = r.scopeMain m (m.wrap u) s) ∧
      (r.position = .parameter → r.apply b s = r.scopeParameter m (m.wrap u) s) := by
  have hdetect : Scope.detect? b.value.toList = some m := hvalue ▸ detect?_wrap hne hu
  rw [← hvalue]
  exact r.apply_of_detect hkind hdetect s

/-! ## One reference -/

theorem isWholeEntry_spec {before after : Option Char} {e : List Char} (he : IsEntry e)
    (h : isWholeEntry before after = true) :
    before ≠ some '$' ∧ after ≠ some '$' ∧ ∀ c ∈ after, e.head? ≠ some c := by
  rw [isWholeEntry, Bool.and_eq_true] at h
  obtain ⟨hbefore, hafter⟩ := h
  refine ⟨?_, ?_, ?_⟩
  · rintro rfl
    simp [isBlank] at hbefore
  · rintro rfl
    simp [isBlank] at hafter
  · rintro c hc hhead
    obtain rfl := Option.mem_def.mp hc
    obtain ⟨hparen, hcomma, hblank⟩ := he.head c hhead
    simp [hparen, hcomma, hblank] at hafter

/-- What is put between marks is not empty, even where the unwrapped value finds no place. -/
theorem Reference.scopedParameter_spec {u : List Char} (hr : '$' ∉ r.text) (hne : u ≠ [])
    (hu : '$' ∉ u) :
    r.scopedParameter (m.wrap u) ≠ [] ∧ '$' ∉ r.scopedParameter (m.wrap u) := by
  have hbare : '$' ∉ strip (· == '\x27') r.text := fun h => hr (mem_of_mem_strip h)
  simp only [scopedParameter, Scope.unwrap_wrap hne hu]
  split
  · refine ⟨by simp [hne], ?_⟩
    rw [List.mem_append, not_or]
    exact ⟨hu, fun h => hbare (List.mem_of_mem_drop h)⟩
  · next hprefix =>
    refine ⟨?_, hbare⟩
    intro hnil
    by_cases hdot : '.' ∈ r.text
    · have hmem : '.' ∈ strip (· == '\x27') r.text := mem_strip (by decide) hdot
      simp [hnil] at hmem
    · simp [name, boundName, hdot, hnil] at hprefix

theorem Reference.runs_apply_of_free (hb : b.value.toList ≠ [] ∧ '$' ∉ b.value.toList)
    (hr : '$' ∉ r.text) {k : Nat} (h : RunsFrom '$' k 0 s) : RunsFrom '$' k 0 (r.apply b s) := by
  obtain ⟨accept, needle, hneedle, happly⟩ := r.apply_of_free hb.2
  rw [happly]
  exact h.replaceWhere (hneedle hr) hb.1 hb.2

theorem Reference.runs_apply_parameter (hb : IsMarked m b) (hpos : r.position = .parameter)
    (hentry : IsEntry r.text) (hr : '$' ∉ r.text) (h : RunsFrom '$' m.mark.length 0 s) :
    RunsFrom '$' m.mark.length 0 (r.apply b s) := by
  rcases hb with hfree | ⟨hkind, u, hne, hu, hvalue⟩
  · exact r.runs_apply_of_free hfree hr h
  · obtain ⟨hinner, hi⟩ := r.scopedParameter_spec (m := m) hr hne (notMem_of_isMainChar hu)
    rw [(apply_of_wrapped hkind hne hu hvalue).2 hpos, scopeParameter, replaceEntry,
      Text.replaceWhere, if_neg hentry.ne_nil, Scope.wrap_eq_replicate]
    exact h.replaceFrom_enclosed hentry.ne_nil hr hinner hi
      (fun _ _ => isWholeEntry_spec hentry) (fun _ => rfl)

/-! ## The main reference -/

theorem Written.Formed.notMem_body_of_brace (hw : w.Formed) : '{' ∉ w.body ∧ '}' ∉ w.body :=
  ⟨hw.notMem_body rfl (by decide) (by decide), hw.notMem_body rfl (by decide) (by decide)⟩

/-- The braces of a placeholder become marks. -/
theorem flip_braces (hw : w.Formed) (m : Scope) :
    replaceAll ['{', '{'] m.mark (replaceAll ['}', '}'] m.mark w.text) =
      m.mark ++ w.body ++ m.mark := by
  obtain ⟨hopen, hclose⟩ := hw.notMem_body_of_brace
  have hmark : '{' ∉ m.mark := fun h => by simpa using Scope.mem_mark h
  have hclosing : replaceAll ['}', '}'] m.mark w.text = '{' :: '{' :: (w.body ++ m.mark) := by
    have h := replaceAll_once '}' m.mark ('{' :: '{' :: w.body) ['}'] [] (by simp [hclose])
      (by simp)
    simpa [Written.text_eq_body] using h
  have hopening := replaceAll_once '{' m.mark [] ['{'] (w.body ++ m.mark) (by simp)
    (by simp [hopen, hmark])
  rw [hclosing]
  simpa using hopening

theorem Written.Formed.body_ne_nil (hw : w.Formed) : w.body ≠ [] := by
  simp [body, hw.main_ne_nil]

theorem runs_apply_main (hb : IsMarked m b) (hw : w.Formed) (hfree : '$' ∉ w.text) :
    RunsFrom '$' m.mark.length 0 (Reference.apply ⟨w.main, .main⟩ b w.text) := by
  have hbody : '$' ∉ w.body := fun h => hfree (by simp [Written.text_eq_body, h])
  have hmain : '$' ∉ w.main := fun h => hbody (by simp [Written.body, h])
  rcases hb with hvalue | ⟨hkind, u, hne, hu, hvalue⟩
  · exact Reference.runs_apply_of_free hvalue hmain (runsFrom_of_notMem hfree)
  · have hu' := notMem_of_isMainChar hu
    rw [(Reference.apply_of_wrapped hkind hne hu hvalue).1 rfl, Reference.scopeMain, flip_braces hw,
      Scope.unwrap_wrap hne hu']
    -- the marks stand before the name is replaced, and its value brings none
    apply RunsFrom.replaceWhere (Reference.notMem_name hmain) hne hu'
    have hwrap := runsFrom_enclosed (x := '$') m.mark.length hw.body_ne_nil hbody
    rwa [← Scope.wrap_eq_replicate] at hwrap

/-! ## All references of a placeholder -/

theorem runs_next (happly : ∀ b, IsMarked m b → RunsFrom '$' m.mark.length 0 (r.apply b p.text))
    (ht : ∀ e ∈ t.entries, IsMarked m e.2) (h : RunsFrom '$' m.mark.length 0 p.text) :
    RunsFrom '$' m.mark.length 0 (p.next t r).text := by
  rw [Progress.next]
  split
  · exact h
  · cases hb : t.get? (String.ofList r.name) with
    | none => exact h
    | some b => exact happly b (ht _ (OrderedMap.mem_entries_of_get? hb))

/-- The marks that the references of a placeholder bring into its text do not join. -/
theorem runs_substituteIn (ht : ∀ e ∈ t.entries, IsMarked m e.2) (hw : w.Formed)
    (hfree : '$' ∉ w.text) : RunsFrom '$' m.mark.length 0 (substituteIn t w.references w.text) := by
  have hbody : '$' ∉ w.body := fun h => hfree (by simp [Written.text_eq_body, h])
  have hlist : '$' ∉ w.list := fun h => hbody (by simp [Written.body, h])
  have hmain : RunsFrom '$' m.mark.length 0
      (Progress.next t ⟨w.text, [], []⟩ ⟨w.main, .main⟩).text :=
    runs_next (fun b hb => runs_apply_main hb hw hfree) ht (runsFrom_of_notMem hfree)
  -- an entry may meet what the ones before it have written, so the text is left open
  have hparameters : ∀ es : List (List Char), (∀ e ∈ es, e ∈ w.references.parameters) →
      ∀ p : Progress, RunsFrom '$' m.mark.length 0 p.text →
        RunsFrom '$' m.mark.length 0
          ((es.map fun text => (⟨text, .parameter⟩ : Reference)).foldl
            (Progress.next t) p).text := by
    intro es hes
    induction es with
    | nil => exact fun p hp => hp
    | cons e es ih =>
        intro p hp
        obtain ⟨hentry, hmem⟩ := isEntry_of_mem_parameters hw (hes e List.mem_cons_self)
        have hr : '$' ∉ e := fun h => hlist (hmem '$' h)
        apply ih fun e' he' => hes e' (List.mem_cons_of_mem e he')
        exact runs_next (fun b hb => Reference.runs_apply_parameter hb rfl hentry hr hp) ht hp
  exact hparameters _ (fun _ he => he) _ hmain

/-! ## A whole text -/

theorem head?_substitute_cut (hs : '$' ∉ s)
    (hfirst : ∀ w rest, cut s ≠ .placeholder w :: rest) :
    ((cut s).flatMap (Piece.substitute t)).head? ≠ some '$' := by
  cases s using cut_induction with
  | nil => simp
  | placeholder w rest hw _ => exact absurd (cut_text_append hw) (hfirst w (cut rest))
  | char c s hnone _ =>
      rw [cut_cons_of_none hnone, List.flatMap_cons]
      simp only [Piece.substitute, List.singleton_append, List.head?_cons, ne_eq,
        Option.some.injEq]
      rintro rfl
      simp at hs

theorem runs_substitute_cut (ht : ∀ e ∈ t.entries, IsMarked m e.2) (hs : '$' ∉ s) {k : Nat}
    (hapart : (spansFrom k (cut s)).IsChain fun x y => x.stop < y.start) :
    RunsFrom '$' m.mark.length 0 ((cut s).flatMap (Piece.substitute t)) := by
  induction s using cut_induction generalizing k with
  | nil => exact Or.inl rfl
  | placeholder w rest hw ih =>
      rw [List.mem_append, not_or] at hs
      rw [cut_text_append hw, spansFrom] at hapart
      rw [cut_text_append hw, List.flatMap_cons]
      -- two placeholders in a row would put their marks side by side
      have hfirst : ∀ v rest', cut rest ≠ .placeholder v :: rest' := by
        intro v rest' hcut
        rw [hcut, spansFrom, List.isChain_cons_cons] at hapart
        exact Nat.lt_irrefl _ hapart.1
      apply RunsFrom.append
      · exact runs_substituteIn ht (Written.leading?_spec hw).1 hs.1
      · exact ih hs.2 hapart.tail
      · exact head?_substitute_cut hs.2 hfirst
  | char c s hnone ih =>
      rw [List.mem_cons, not_or] at hs
      rw [cut_cons_of_none hnone] at hapart ⊢
      rw [List.flatMap_cons, Piece.substitute, List.singleton_append,
        runsFrom_cons (Ne.symm hs.1)]
      exact ⟨Or.inl rfl, ih hs.2 hapart⟩

end Placeholder

namespace Argument.Table

open Text Placeholder

/-- Marks neither join nor change. In a text without marks, with at least one character between a
placeholder and the next one, substitution of values that bring no marks but `m` leaves no run of
`$` with another length than that of `m`. -/
theorem length_run_substituteAll (m : Scope) {t : Table} {text : String}
    (ht : ∀ e ∈ t.entries, IsMarked m e.2) (htext : '$' ∉ text.toList)
    (hapart : (spans text).IsChain fun x y => x.stop < y.start) (n : Nat)
    (hrun : HasRun '$' n (t.substituteAll text).toList) : n = m.mark.length := by
  rw [substituteAll, String.toList_ofList] at hrun
  exact (runs_substitute_cut ht htext hapart).eq_of_hasRun hrun

/-- One value is wrapped in two marks, and the other one has its name as a word. -/
def made : Table :=
  ofList [⟨"product", "$$made.id$$", .entity⟩, ⟨"row", "the product", .string⟩]

/-- The argument `product` is a main reference first and a parameter then. -/
def twoRows : String := "\x7b\x7bproduct.sku(row)\x7d\x7d \x7b\x7bGrid.row((product, row\x7d\x7d"

theorem length_run_substituteAll_made :
    (∀ e ∈ made.entries, IsMarked .double e.2) ∧ '$' ∉ twoRows.toList ∧
    ((spans twoRows).IsChain fun x y => x.stop < y.start) ∧
    made.substituteAll twoRows =
      "$$made.id.sku(the product)$$ \x7b\x7bGrid.row(($$made.id$$, the product\x7d\x7d" ∧
    HasRun '$' 2 (made.substituteAll twoRows).toList ∧
    ∀ n, HasRun '$' n (made.substituteAll twoRows).toList → n = 2 := by
  have hmarked : ∀ e ∈ made.entries, IsMarked .double e.2 := by
    intro e he
    have hcases : e = ("product", ⟨"$$made.id$$", .entity⟩) ∨
        e = ("row", ⟨"the product", .string⟩) := by
      simpa [made, ofList, insert, OrderedMap.insertEntry] using he
    rcases hcases with rfl | rfl
    · exact Or.inr ⟨by decide, "made.id".toList, by decide, List.all_eq_true.mp (by decide),
        by decide⟩
    · exact Or.inl (by decide)
  have htext : '$' ∉ twoRows.toList := by decide
  have hapart : (spans twoRows).IsChain fun x y => x.stop < y.start := by decide
  have hvalue : made.substituteAll twoRows =
      "$$made.id.sku(the product)$$ \x7b\x7bGrid.row(($$made.id$$, the product\x7d\x7d" := by
    decide
  refine ⟨hmarked, htext, hapart, hvalue, ?_, fun n hn => ?_⟩
  · rw [hvalue]
    exact ⟨by decide, [], _, rfl, by decide, by decide⟩
  · exact length_run_substituteAll .double hmarked htext hapart n hn

end Argument.Table

end StepTemplate
