import StepTemplate.Proofs.Substitution.Parameters

namespace StepTemplate

/-!
# Values inserted one after the other

A parameter that is the name of a string gives way to the value, and the values inserted before it
are searched for the name too. So a value comes out as it was given if none of the later names
stands in it; its own name and the earlier ones do it no harm.
-/

namespace Placeholder

open Text Argument

variable {t : Table} {p : Progress} {main name : List Char} {as : List Resolved} {a : Resolved}

/-- A text in which the names of arguments are replaced one after the other. -/
def rewriteWith (as : List Resolved) (v : List Char) : List Char :=
  as.foldl (fun v a => replaceWord a.name.toList a.value.toList v) v

/-- The values of arguments, each rewritten by the arguments behind it. -/
def inserted : List Resolved → List (List Char)
  | [] => []
  | a :: as => rewriteWith as a.value.toList :: inserted as

theorem rewriteWith_cons (a : Resolved) (as : List Resolved) (v : List Char) :
    rewriteWith (a :: as) v = rewriteWith as (replaceWord a.name.toList a.value.toList v) := rfl

theorem rewriteWith_eq_self {v : List Char}
    (h : ∀ a ∈ as, ¬ Stands isWholeWord a.name.toList v) : rewriteWith as v = v := by
  induction as with
  | nil => rfl
  | cons a as ih =>
      have hkept := replaceWhere_eq_self a.value.toList (h a List.mem_cons_self)
      rw [rewriteWith_cons, replaceWord, hkept]
      exact ih fun x hx => h x (List.mem_cons_of_mem a hx)

theorem inserted_eq_values
    (h : as.Pairwise fun a b => ¬ Stands isWholeWord b.name.toList a.value.toList) :
    inserted as = as.map fun a => a.value.toList := by
  induction as with
  | nil => rfl
  | cons a as ih =>
      obtain ⟨ha, has⟩ := List.pairwise_cons.mp h
      rw [inserted, rewriteWith_eq_self ha, ih has, List.map_cons]

theorem replaceWord_call (hname : IsWord name) (hmain : name ∉ words main) (value : List Char)
    (entries : List (List Char)) :
    replaceWord name value (Written.call main entries).text =
      (Written.call main (entries.map (replaceWord name value))).text := by
  have hsigns : ∀ c ∈ ['{', '}', '(', ')', ',', ' '], isWordChar c = false := by
    simp
    decide
  have hcomma : IsBorder isWholeWord ',' := isBorder_isWholeWord (by decide) (by decide)
  have hblank : IsBorder isWholeWord ' ' := isBorder_isWholeWord (by decide) (by decide)
  have hclose : IsBorder isWholeWord ')' := isBorder_isWholeWord (by decide) (by decide)
  apply Written.replaceWhere_call hname.ne_nil _ (fun _ => rfl) hclose.after hcomma hblank
  · intro a b hab
    rw [← Bool.not_eq_true]
    intro hword
    exact hmain (hab ▸ mem_words_of_isWholeWord hname hword)
  · exact fun c hc => hname.notMem (hsigns c hc)

theorem name_ne_of_nodup {x : Resolved} (hnodup : ((a :: as).map Resolved.name).Nodup)
    (hx : x ∈ as) : x.name.toList ≠ a.name.toList := by
  intro heq
  rw [List.map_cons, List.nodup_cons] at hnodup
  rw [String.toList_inj] at heq
  exact hnodup.1 (heq ▸ List.mem_map_of_mem hx)

theorem replaceWord_inserting (vs : List (List Char)) (hname : ∀ x ∈ a :: as, IsWord x.name.toList)
    (hnodup : ((a :: as).map Resolved.name).Nodup) (hmain : a.name.toList ∉ words main) :
    replaceWord a.name.toList a.value.toList
        (Written.call main (vs ++ (a :: as).map fun x => x.name.toList)).text =
      (Written.call main ((vs.map (replaceWord a.name.toList a.value.toList) ++ [a.value.toList]) ++
        as.map fun x => x.name.toList)).text := by
  have ha := hname a List.mem_cons_self
  have hothers : ∀ x ∈ as, replaceWord a.name.toList a.value.toList x.name.toList =
      x.name.toList := by
    intro x hx
    rw [replaceWord_of_isWord ha (hname x (List.mem_cons_of_mem a hx)),
      if_neg (name_ne_of_nodup hnodup hx)]
  have hown : replaceWord a.name.toList a.value.toList a.name.toList = a.value.toList := by
    rw [replaceWord_of_isWord ha ha, if_pos rfl]
  have hkept : (as.map fun x => x.name.toList).map (replaceWord a.name.toList a.value.toList) =
      as.map fun x => x.name.toList := by
    rw [List.map_map]
    exact List.map_congr_left hothers
  rw [replaceWord_call ha hmain, List.map_append, List.map_cons, List.map_cons, hown, hkept,
    List.append_assoc, List.singleton_append]

/-- The arguments are applied to a call whose first entries are values already. Each of these is
rewritten by all the arguments, and the names behind them are inserted. -/
theorem foldl_next_inserting (vs : List (List Char)) (hname : ∀ a ∈ as, IsWord a.name.toList)
    (hnodup : (as.map Resolved.name).Nodup) (hmain : ∀ a ∈ as, a.name.toList ∉ words main)
    (hbound : ∀ a ∈ as, a.kind = .string ∧ t.get? a.name = some ⟨a.value, a.kind⟩)
    (htext : p.text = (Written.call main (vs ++ as.map fun a => a.name.toList)).text)
    (hnew : ∀ a ∈ as, a.name.toList ∉ p.applied ∧ a.name.toList ∉ p.replaced) :
    ((as.map fun a => parameter a.name.toList).foldl (Progress.next t) p).text =
      (Written.call main (vs.map (rewriteWith as) ++ inserted as)).text := by
  induction as generalizing vs p with
  | nil =>
      have hkept : vs.map (rewriteWith []) = vs := List.map_id vs
      rw [hkept]
      exact htext
  | cons a as ih =>
      have ha := hname a List.mem_cons_self
      obtain ⟨hkind, hget⟩ := hbound a List.mem_cons_self
      obtain ⟨happlied, hreplaced⟩ := hnew a List.mem_cons_self
      have hself : (parameter a.name.toList).name = a.name.toList := boundName_of_isWord ha
      have hnext := Progress.next_of_bound (t := t) (r := parameter a.name.toList) happlied
        (by rwa [hself]) (by rw [hself, String.ofList_toList, hget])
      have happly : (parameter a.name.toList).apply ⟨a.value, a.kind⟩ p.text =
          replaceWord a.name.toList a.value.toList p.text := by
        rw [hkind, ← congrArg (replaceWord · a.value.toList p.text) hself]
        rfl
      have hinserted := replaceWord_inserting vs hname hnodup
        (hmain a List.mem_cons_self)
      have hnodup' := (List.nodup_cons.mp hnodup).2
      rw [List.map_cons, List.foldl_cons, hnext, happly, htext, hinserted,
        ih _ (fun x hx => hname x (List.mem_cons_of_mem a hx)) hnodup'
          (fun x hx => hmain x (List.mem_cons_of_mem a hx))
          (fun x hx => hbound x (List.mem_cons_of_mem a hx)) rfl]
      · have hmap : (vs.map (replaceWord a.name.toList a.value.toList)).map (rewriteWith as) =
            vs.map (rewriteWith (a :: as)) := List.map_map
        rw [List.map_append, hmap, List.append_assoc]
        rfl
      · intro x hx
        -- the names behind the first one are others, so nothing about them is remembered
        have hne := name_ne_of_nodup hnodup hx
        obtain ⟨hx₁, hx₂⟩ := hnew x (List.mem_cons_of_mem a hx)
        constructor
        · simp [hx₁, hne, parameter]
        · split <;> simp [hx₂, hne, hself]

/-! ## A call with strings -/

/-- What becomes of a call whose parameters are the names of strings. Each value is inserted at the
place of its name, where it is rewritten by the arguments behind it and by no other one. So all
values come out as they were given if none has the name of a later argument as a word of its own. -/
theorem substituteAll_inserted (hmain : IsPath main)
    (hfree : t.get? (String.ofList (boundName main)) = none)
    (hname : ∀ a ∈ as, IsWord a.name.toList) (hnodup : (as.map Resolved.name).Nodup)
    (hbound : ∀ a ∈ as, a.kind = .string ∧ t.get? a.name = some ⟨a.value, a.kind⟩)
    (hspared : ∀ a ∈ as, a.name.toList ∉ words main) :
    t.substituteAll
        (String.ofList (Written.call main (as.map fun a => a.name.toList)).text) =
      String.ofList (Written.call main (inserted as)).text ∧
    ((as.Pairwise fun a b => ¬ Stands isWholeWord b.name.toList a.value.toList) →
      t.substituteAll
          (String.ofList (Written.call main (as.map fun a => a.name.toList)).text) =
        String.ofList (Written.call main (as.map fun a => a.value.toList)).text) := by
  have hpaths : ∀ e ∈ as.map fun a => a.name.toList, IsPath e := by
    intro e he
    obtain ⟨a, ha, rfl⟩ := List.mem_map.mp he
    exact isPath_of_isWord (hname a ha)
  have hrefs : (as.map fun a => a.name.toList).map parameter =
      as.map fun a => parameter a.name.toList := by
    rw [List.map_map]
    rfl
  have hall : t.substituteAll
      (String.ofList (Written.call main (as.map fun a => a.name.toList)).text) =
        String.ofList (Written.call main (inserted as)).text := by
    rw [Written.substituteAll_call hmain hpaths hfree, hrefs,
      foldl_next_inserting [] hname hnodup hspared hbound rfl (by simp)]
    rfl
  exact ⟨hall, fun h => by rw [hall, inserted_eq_values h]⟩

/-- A value with its own name, one with the name of an earlier argument and one that is empty. -/
def cellArguments : List Resolved :=
  [⟨"row", "the row", .string⟩, ⟨"col", "row(col", .string⟩, ⟨"note", "", .string⟩]

theorem substituteAll_inserted_cell :
    IsPath "cell".toList ∧
    (Table.ofList cellArguments).get? "cell" = none ∧
    (∀ a ∈ cellArguments, IsWord a.name.toList) ∧ (cellArguments.map Resolved.name).Nodup ∧
    (∀ a ∈ cellArguments, a.kind = .string ∧
      (Table.ofList cellArguments).get? a.name = some ⟨a.value, a.kind⟩) ∧
    (∀ a ∈ cellArguments, a.name.toList ∉ words "cell".toList) ∧
    (cellArguments.Pairwise fun a b => ¬ Stands isWholeWord b.name.toList a.value.toList) ∧
    (Table.ofList cellArguments).substituteAll "\x7b\x7bcell(row, col, note)\x7d\x7d" =
      "\x7b\x7bcell(the row, row(col, )\x7d\x7d" := by
  have hmain : IsPath "cell".toList := by decide
  have hfree : (Table.ofList cellArguments).get? "cell" = none := by decide
  have hname : ∀ a ∈ cellArguments, IsWord a.name.toList := by decide
  have hnodup : (cellArguments.map Resolved.name).Nodup := by decide
  have hbound : ∀ a ∈ cellArguments, a.kind = .string ∧
      (Table.ofList cellArguments).get? a.name = some ⟨a.value, a.kind⟩ := by decide
  have hspared : ∀ a ∈ cellArguments, a.name.toList ∉ words "cell".toList := by
    rw [words_of_isWord (by decide)]
    decide
  have hapart : cellArguments.Pairwise fun a b =>
      ¬ Stands isWholeWord b.name.toList a.value.toList := by decide
  refine ⟨hmain, hfree, hname, hnodup, hbound, hspared, hapart, ?_⟩
  exact (substituteAll_inserted hmain hfree hname hnodup hbound hspared).2 hapart

/-- The value of the first argument is the name of the second one. -/
theorem not_inserted_renamed :
    (Table.ofList [⟨"row", "col", .string⟩, ⟨"col", "3", .string⟩]).substituteAll
        (String.ofList (Written.call "Grid.cell".toList ["row".toList, "col".toList]).text) ≠
      String.ofList (Written.call "Grid.cell".toList ["col".toList, "3".toList]).text := by
  decide

end Placeholder

end StepTemplate
