import StepTemplate.Proofs.Substitution.Simultaneous

namespace StepTemplate

/-!
# What a substitution reads

A substitution asks a table for the names of its references and for nothing else. A reference that
is bound to nothing, or that comes again, leaves no trace: neither the text nor what is remembered
for the later references changes.
-/

namespace Argument.Table

open Text Placeholder

/-- Two tables give the same for each of the names. -/
def AgreeOn (t t' : Table) (names : List (List Char)) : Prop :=
  ∀ n ∈ names, t.get? (String.ofList n) = t'.get? (String.ofList n)

instance (t t' : Table) (names : List (List Char)) : Decidable (t.AgreeOn t' names) :=
  inferInstanceAs (Decidable (∀ n ∈ names, t.get? (String.ofList n) = t'.get? (String.ofList n)))

/-- No name leads to an argument. -/
def IsFreeOf (t : Table) (names : List (List Char)) : Prop :=
  ∀ n ∈ names, t.get? (String.ofList n) = none

instance (t : Table) (names : List (List Char)) : Decidable (t.IsFreeOf names) :=
  inferInstanceAs (Decidable (∀ n ∈ names, t.get? (String.ofList n) = none))

end Argument.Table

namespace Placeholder

open Text Argument

variable {t t' : Table} {p : Progress} {x r : Reference} {q : Placeholder}
  {refs front back : List Reference} {e : List Char} {es : List (List Char)}

/-! ## References that leave no trace -/

theorem Progress.isIdle_next (t : Table) (p : Progress) (r : Reference) :
    (p.next t r).IsIdle t r := by
  rw [Progress.next]
  split
  · next hold => exact hold.imp_right Or.inl
  · cases hb : t.get? (String.ofList r.name) with
    | none => exact Or.inr (Or.inr hb)
    | some b => exact Or.inl (List.mem_append_right _ (List.mem_singleton_self _))

/-- What is applied or replaced remains so. -/
theorem Progress.IsIdle.next (h : p.IsIdle t x) (r : Reference) : (p.next t r).IsIdle t x := by
  rw [Progress.next]
  split
  · exact h
  · cases t.get? (String.ofList r.name) with
    | none => exact h
    | some b =>
        refine h.imp (List.mem_append_left _) (Or.imp_left fun hreplaced => ?_)
        change x.name ∈ if r.replacesWords b = true then p.replaced ++ [r.name] else p.replaced
        split
        · exact List.mem_append_left _ hreplaced
        · exact hreplaced

theorem Progress.IsIdle.foldl (h : p.IsIdle t x) (refs : List Reference) :
    (refs.foldl (Progress.next t) p).IsIdle t x := by
  induction refs generalizing p with
  | nil => exact h
  | cons r refs ih => exact ih (h.next r)

theorem Progress.isIdle_foldl (hx : x ∈ refs) (p : Progress) :
    (refs.foldl (Progress.next t) p).IsIdle t x := by
  induction refs generalizing p with
  | nil => exact absurd hx List.not_mem_nil
  | cons r refs ih =>
      rcases List.mem_cons.mp hx with rfl | hx
      · exact (isIdle_next t p x).foldl refs
      · exact ih hx (p.next t r)

/-- A repeated reference, or one bound to nothing, may be dropped. -/
theorem foldl_next_drop (h : x ∈ front ∨ t.get? (String.ofList x.name) = none) (p : Progress) :
    (front ++ x :: back).foldl (Progress.next t) p = (front ++ back).foldl (Progress.next t) p := by
  have hidle : (front.foldl (Progress.next t) p).IsIdle t x := by
    rcases h with hx | hfree
    · exact Progress.isIdle_foldl hx p
    · exact Or.inr (Or.inr hfree)
  rw [List.foldl_append, List.foldl_cons, hidle.next_eq, ← List.foldl_append]

/-- The entries that are bound to an argument, each where it comes first. -/
def boundEntries (t : Table) (es : List (List Char)) : List (List Char) :=
  (es.filter fun e => (t.get? (String.ofList (boundName e))).isSome).eraseDups

theorem boundEntries_concat (t : Table) (es : List (List Char)) (e : List Char) :
    boundEntries t (es ++ [e]) =
      if e ∈ es ∨ t.get? (String.ofList (boundName e)) = none then boundEntries t es
      else boundEntries t es ++ [e] := by
  cases hb : t.get? (String.ofList (boundName e)) with
  | none => simp [boundEntries, hb]
  | some b =>
      simp [boundEntries, eraseDups_concat, hb]

theorem foldl_next_boundEntries (t : Table) (es : List (List Char)) (p : Progress) :
    ((boundEntries t es).map parameter).foldl (Progress.next t) p =
      (es.map parameter).foldl (Progress.next t) p := by
  induction es using List.reverseRecOn with
  | nil => rfl
  | append_singleton es e ih =>
      rw [boundEntries_concat, List.map_append, List.map_singleton]
      split
      · next h =>
        have hdrop : parameter e ∈ es.map parameter ∨
            t.get? (String.ofList (parameter e).name) = none :=
          h.imp_left List.mem_map_of_mem
        rw [foldl_next_drop hdrop, List.append_nil, ih]
      · rw [List.map_append, List.map_singleton, List.foldl_append, List.foldl_append, ih]

/-! ## What is looked up -/

theorem foldl_next_congr (h : ∀ r ∈ refs, t.get? (String.ofList r.name) =
    t'.get? (String.ofList r.name)) (p : Progress) :
    refs.foldl (Progress.next t) p = refs.foldl (Progress.next t') p := by
  apply List.foldl_ext
  intro p r hr
  rw [Progress.next, Progress.next, h r hr]

theorem substituteIn_congr (h : t.AgreeOn t' q.names) (s : List Char) :
    substituteIn t q s = substituteIn t' q s := by
  rw [substituteIn, substituteIn, foldl_next_congr]
  exact fun r hr => h r.name (List.mem_map_of_mem hr)

theorem substituteIn_of_isFreeOf (h : t.IsFreeOf q.names) (s : List Char) :
    substituteIn t q s = s := by
  rw [substituteIn, foldl_next_of_idle]
  exact fun r hr => Or.inr (Or.inr (h r.name (List.mem_map_of_mem hr)))

/-- The pieces make up the text. -/
theorem flatMap_text_cut (s : List Char) : (cut s).flatMap Piece.text = s := by
  induction s using cut_induction with
  | nil => rfl
  | placeholder w rest hw ih => rw [cut_text_append hw, List.flatMap_cons, ih, Piece.text]
  | char c s hnone ih =>
      rw [cut_cons_of_none hnone, List.flatMap_cons, ih, Piece.text, List.singleton_append]

/-- What is cut out of a text as a placeholder is reported. -/
theorem exists_mem_spansFrom {ps : List Piece} {w : Written} (h : .placeholder w ∈ ps) (k : Nat) :
    ∃ x ∈ spansFrom k ps, x.placeholder = w.references := by
  induction ps generalizing k with
  | nil => exact absurd h List.not_mem_nil
  | cons piece ps ih =>
      cases piece with
      | char c => exact ih ((List.mem_cons.mp h).resolve_left (by simp)) _
      | placeholder v =>
          rcases List.mem_cons.mp h with heq | h
          · cases heq
            exact ⟨_, List.mem_cons_self, rfl⟩
          · obtain ⟨x, hx, href⟩ := ih h _
            exact ⟨x, List.mem_cons_of_mem _ hx, href⟩

end Placeholder

namespace Argument.Table

open Text Placeholder

variable {t t' : Table} {text : String}

theorem substituteAll_congr (h : ∀ x ∈ spans text, t.AgreeOn t' x.placeholder.names) :
    t.substituteAll text = t'.substituteAll text := by
  have hpieces : ∀ piece ∈ cut text.toList, piece.substitute t = piece.substitute t' := by
    intro piece hpiece
    cases piece with
    | char c => rfl
    | placeholder w =>
        obtain ⟨x, hx, href⟩ := exists_mem_spansFrom hpiece 0
        exact substituteIn_congr (href ▸ h x hx) w.text
  rw [substituteAll, substituteAll, List.flatMap_congr hpieces]

theorem agreeOn_insert {a : Resolved} {names : List (List Char)} (h : a.name.toList ∉ names) :
    (t.insert a).AgreeOn t names := by
  intro n hn
  have hne : a.name ≠ String.ofList n := by
    intro heq
    rw [heq, String.toList_ofList] at h
    exact h hn
  rw [insert, OrderedMap.get?_insert, if_neg hne]

theorem substituteAll_of_isFreeOf (h : ∀ x ∈ spans text, t.IsFreeOf x.placeholder.names) :
    t.substituteAll text = text := by
  have hpieces : ∀ piece ∈ cut text.toList, piece.substitute t = piece.text := by
    intro piece hpiece
    cases piece with
    | char c => rfl
    | placeholder w =>
        obtain ⟨x, hx, href⟩ := exists_mem_spansFrom hpiece 0
        exact substituteIn_of_isFreeOf (href ▸ h x hx) w.text
  rw [substituteAll, List.flatMap_congr hpieces, flatMap_text_cut, String.ofList_toList]

/-- Only the names of the references are looked up. Tables that agree on them substitute alike; an
entry that is bound to nothing or comes again may be dropped, one by one or all at once; and without
a bound reference the text stays. So neither the order of a table nor an argument to which no
placeholder of a text refers makes a difference to the text. -/
theorem substitute_eq_of_lookups (t : Table) :
    (∀ (t' : Table) (q : Placeholder) (text : String), t.AgreeOn t' q.names →
      t.substitute q text = t'.substitute q text) ∧
    (∀ (main e : List Char) (front back : List (List Char)) (text : String),
      e ∈ front ∨ t.get? (String.ofList (boundName e)) = none →
        t.substitute ⟨main, front ++ e :: back⟩ text = t.substitute ⟨main, front ++ back⟩ text) ∧
    (∀ (q : Placeholder) (text : String),
      t.substitute ⟨q.main, boundEntries t q.parameters⟩ text = t.substitute q text) ∧
    (∀ (q : Placeholder) (text : String), t.IsFreeOf q.names → t.substitute q text = text) ∧
    (∀ (t' : Table) (text : String), t.entries.Perm t'.entries →
      t.substituteAll text = t'.substituteAll text) ∧
    (∀ (t' : Table) (text : String), (∀ x ∈ spans text, t.AgreeOn t' x.placeholder.names) →
      t.substituteAll text = t'.substituteAll text) ∧
    (∀ (a : Resolved) (text : String), (∀ x ∈ spans text, a.name.toList ∉ x.placeholder.names) →
      (t.insert a).substituteAll text = t.substituteAll text) ∧
    ∀ text : String, (∀ x ∈ spans text, t.IsFreeOf x.placeholder.names) →
      t.substituteAll text = text := by
  refine ⟨?_, ?_, ?_, ?_, ?_, fun _ _ => substituteAll_congr, ?_,
    fun _ => substituteAll_of_isFreeOf⟩
  · intro t' q text h
    rw [substitute, substitute, substituteIn_congr h]
  · intro main e front back text h
    have hdrop : parameter e ∈ front.map parameter ∨
        t.get? (String.ofList (parameter e).name) = none := h.imp_left List.mem_map_of_mem
    simp only [substitute, substituteIn_eq, List.map_append, List.map_cons]
    rw [foldl_next_drop hdrop]
  · intro q text
    simp only [substitute, substituteIn_eq, foldl_next_boundEntries]
  · intro q text h
    rw [substitute, substituteIn_of_isFreeOf h, String.ofList_toList]
  · intro t' text h
    exact substituteAll_congr fun _ _ _ _ => OrderedMap.get?_eq_of_perm h _
  · intro a text h
    exact substituteAll_congr fun x hx => agreeOn_insert (h x hx)

/-- The arguments of `grid` in another order and one argument more. -/
def longerGrid : Table :=
  ofList [⟨"col", "(x", .string⟩, ⟨"x", "y", .string⟩, ⟨"Grid", "Table", .entity⟩,
    ⟨"row", "the row", .string⟩]

/-- The arguments of `grid` in another order. -/
def turnedGrid : Table :=
  ofList [⟨"col", "(x", .string⟩, ⟨"Grid", "Table", .entity⟩, ⟨"row", "the row", .string⟩]

/-- One entry is bound to nothing, and one comes again. -/
def spareReferences : Placeholder :=
  ⟨"list".toList, ["no".toList, "row".toList, "'col'".toList, "row".toList]⟩

theorem substitute_eq_of_lookups_grid :
    grid.AgreeOn longerGrid cellReferences.names ∧
    grid.substitute cellReferences "x row Grid" =
      longerGrid.substitute cellReferences "x row Grid" ∧
    (∀ x ∈ spans cell, grid.AgreeOn longerGrid x.placeholder.names) ∧
    grid.substituteAll cell = longerGrid.substituteAll cell ∧
    grid.substitute ⟨['x'], ["row".toList] ++ "row".toList :: ["col".toList]⟩ "col row" =
      grid.substitute ⟨['x'], ["row".toList] ++ ["col".toList]⟩ "col row" ∧
    boundEntries grid spareReferences.parameters = ["row".toList, "'col'".toList] ∧
    grid.substitute ⟨spareReferences.main, ["row".toList, "'col'".toList]⟩ "list(row, no)" =
      grid.substitute spareReferences "list(row, no)" ∧
    grid.IsFreeOf (Placeholder.names ⟨['x'], ["no".toList]⟩) ∧
    grid.substitute ⟨['x'], ["no".toList]⟩ "x row" = "x row" ∧
    grid.entries.Perm turnedGrid.entries ∧
    grid.substituteAll cell = turnedGrid.substituteAll cell ∧
    (∀ x ∈ spans cell, "x".toList ∉ x.placeholder.names) ∧
    (grid.insert ⟨"x", "y", .string⟩).substituteAll cell = grid.substituteAll cell ∧
    (∀ x ∈ spans "row \x7b\x7bx.row(no)\x7d\x7d", grid.IsFreeOf x.placeholder.names) ∧
    grid.substituteAll "row \x7b\x7bx.row(no)\x7d\x7d" = "row \x7b\x7bx.row(no)\x7d\x7d" := by
  have hagree : grid.AgreeOn longerGrid cellReferences.names := by decide
  have hagreeAll : ∀ x ∈ spans cell, grid.AgreeOn longerGrid x.placeholder.names := by decide
  have hentries : boundEntries grid spareReferences.parameters =
      ["row".toList, "'col'".toList] := by decide
  have hfree : grid.IsFreeOf (Placeholder.names ⟨['x'], ["no".toList]⟩) := by decide
  have hperm : grid.entries.Perm turnedGrid.entries := by decide
  have hspared : ∀ x ∈ spans cell, "x".toList ∉ x.placeholder.names := by decide
  have hfreeAll : ∀ x ∈ spans "row \x7b\x7bx.row(no)\x7d\x7d",
      grid.IsFreeOf x.placeholder.names := by decide
  obtain ⟨htables, hdrop, hreduced, hkept, horder, htexts, hinsert, hkeptAll⟩ :=
    substitute_eq_of_lookups grid
  refine ⟨hagree, htables _ _ _ hagree, hagreeAll, htexts _ _ hagreeAll,
    hdrop _ _ _ _ _ (Or.inl (by decide)), hentries, ?_, hfree, hkept _ _ hfree, hperm,
    horder _ _ hperm, hspared, hinsert _ _ hspared, hfreeAll, hkeptAll _ hfreeAll⟩
  rw [← hentries]
  exact hreduced spareReferences _

end Argument.Table

end StepTemplate
