import StepTemplate.Proofs.Substitution.Marks
import StepTemplate.Proofs.Substitution.Parameters

namespace StepTemplate

/-!
# Parameters under a marker

A parameter whose argument has a marker is searched for as a whole entry, and commas, blanks and the
parentheses of the list end an entry. In a list whose entries have no blanks every entry is a scoped
reference in its own right; with blanks, what equals the parameter may also stand inside an entry.
-/

namespace Text

variable {before after : Option Char} {c : Char} {e s value x y : List Char}

/-- Whether a character ends an entry of a parameter list on one of its sides. -/
def endsEntry (c : Char) : Bool :=
  c == '(' || c == ')' || c == ',' || isBlank c

def IsSolid (s : List Char) : Prop :=
  ∀ c ∈ s, endsEntry c = false

theorem isWholeEntry_behind_opening (after : Option Char) :
    isWholeEntry (some '(') after = isWholeEntry none after := rfl

theorem isWholeEntry_before_closing (before : Option Char) :
    isWholeEntry before (some ')') = isWholeEntry before none := rfl

theorem isBorder_isWholeEntry (hc : c = ',' ∨ isBlank c = true) : IsBorder isWholeEntry c := by
  constructor
  · intro before
    rcases hc with rfl | hc <;> simp [isWholeEntry, *]
  · intro after
    rcases hc with rfl | hc <;> simp [isWholeEntry, *]

theorem not_isWholeEntry_behind (hc : endsEntry c = false) :
    isWholeEntry (some c) after = false := by
  simp only [endsEntry, Bool.or_eq_false_iff] at hc
  simp [isWholeEntry, hc]

theorem not_isWholeEntry_before (hc : endsEntry c = false) :
    isWholeEntry before (some c) = false := by
  simp only [endsEntry, Bool.or_eq_false_iff] at hc
  simp [isWholeEntry, hc]

/-- A text that does not end an entry anywhere is replaced as a whole or not at all. -/
theorem replaceEntry_of_isSolid (he : e ≠ []) (hs : IsSolid s) :
    replaceEntry e value s = if s = e then value else s := by
  rw [replaceEntry, replaceWhere_of_ne_nil he]
  by_cases heq : s = e
  · subst heq
    have hwhole : replaceFrom isWholeEntry s value none 0 (s ++ []) = value ++ [] :=
      replaceFrom_occurrence isWholeEntry he []
    rw [List.append_nil, List.append_nil] at hwhole
    rw [hwhole, if_pos rfl]
  · rw [if_neg heq]
    apply replaceFrom_eq_self isWholeEntry value none he
    rintro a b rfl
    obtain rfl | ⟨a, c, rfl⟩ := List.eq_nil_or_concat' a
    · obtain ⟨c, b, rfl⟩ := List.exists_cons_of_ne_nil (l := b) (by simpa using heq)
      exact not_isWholeEntry_before (hs c (by simp))
    · rw [List.getLast?_append, List.getLast?_singleton, Option.some_or, Option.some_or]
      exact not_isWholeEntry_behind (hs c (by simp))

theorem replaceEntry_between_blanks (he : e ≠ []) (hhead : StopsAt isBlank e)
    (hx : ∀ c ∈ x, isBlank c = true) (hy : ∀ c ∈ y, isBlank c = true) :
    replaceEntry e value (x ++ (e ++ y)) = x ++ (value ++ y) := by
  obtain ⟨d, e, rfl⟩ := List.exists_cons_of_ne_nil he
  have hd : isBlank d = false := stopsAt_cons.mp hhead
  have hblank : ∀ z : List Char, (∀ c ∈ z, isBlank c = true) → d ∉ z := by
    intro z hz hmem
    simp [hz d hmem] at hd
  have hbehind : ∀ after, isWholeEntry (x.getLast?.or none) after = isWholeEntry none after := by
    intro after
    cases hlast : x.getLast? with
    | none => rfl
    | some c => exact (isBorder_isWholeEntry (Or.inr (hx c (List.mem_of_getLast? hlast)))).before _
  have hbefore : isWholeEntry none y.head? = true := by
    cases y with
    | nil => rfl
    | cons c y => exact (isBorder_isWholeEntry (Or.inr (hy c List.mem_cons_self))).after none
  rw [replaceEntry, replaceWhere_of_ne_nil he,
    replaceFrom_append_of_notMem _ _ _ _ _ (hblank x hx), replaceFrom_occurrence _ he, hbehind,
    if_pos hbefore, replaceFrom_of_notMem _ _ _ _ (hblank y hy)]

end Text

namespace Placeholder

open Text Argument

variable {m : Scope} {t : Table} {b : Binding} {p : Progress} {w : Written}
  {main e r value u : List Char} {es : List (List Char)}

theorem endsEntry_of_isListChar {c : Char} (hc : isListChar c = true) (hcomma : c ≠ ',')
    (hblank : isBlank c = false) : endsEntry c = false := by
  have hopen : c ≠ '(' := ne_of_isListChar hc (by decide)
  have hclose : c ≠ ')' := ne_of_isListChar hc (by decide)
  simp [endsEntry, hopen, hclose, hcomma, hblank]

theorem IsPath.isSolid (he : IsPath e) : IsSolid e := by
  intro c hc
  have hmain := he.chars c hc
  apply endsEntry_of_isListChar (isListChar_of_isMainChar hmain) _ (isBlank_of_isMainChar hmain)
  rintro rfl
  exact he.notMem (by decide) hc

theorem not_isWholeEntry_in_main (hmain : IsPath main) {a s : List Char}
    (h : main = a ++ s) (after : Option Char) :
    isWholeEntry (a.getLast?.or (some '{')) after = false := by
  cases hlast : a.getLast? with
  | none => exact not_isWholeEntry_behind (by decide)
  | some c =>
      have hc : c ∈ main := h ▸ List.mem_append_left s (List.mem_of_getLast? hlast)
      exact not_isWholeEntry_behind (hmain.isSolid c hc)

/-- What becomes of an entry under the marker of its argument. -/
def scopedEntry (t : Table) (e : List Char) : List Char :=
  match t.get? (String.ofList (boundName e)) with
  | none => e
  | some b =>
    match Scope.detect? b.value.toList with
    | none => e
    | some m => m.wrap ((parameter e).scopedParameter b.value.toList)

theorem scopedEntry_of_free (h : t.get? (String.ofList (boundName e)) = none) :
    scopedEntry t e = e := by
  rw [scopedEntry, h]

theorem scopedEntry_of_detect (hb : t.get? (String.ofList (boundName e)) = some b)
    (hdetect : Scope.detect? b.value.toList = some m) :
    scopedEntry t e = m.wrap ((parameter e).scopedParameter b.value.toList) := by
  simp only [scopedEntry, hb, hdetect]

theorem Progress.next_of_detect (happlied : e ∉ p.applied) (hreplaced : boundName e ∉ p.replaced)
    (hb : t.get? (String.ofList (boundName e)) = some b) (hkind : b.kind ≠ .string)
    (hdetect : Scope.detect? b.value.toList = some m) :
    p.next t (parameter e) =
      ⟨replaceEntry e (scopedEntry t e) p.text, p.applied ++ [e], p.replaced⟩ := by
  have happly := ((parameter e).apply_of_detect hkind hdetect p.text).2 rfl
  have hwords : (parameter e).replacesWords b = false :=
    Reference.replacesWords_of_detect hkind hdetect
  rw [Progress.next_of_bound (r := parameter e) happlied hreplaced hb, happly, hwords,
    scopedEntry_of_detect hb hdetect]
  rfl

/-! ## Entries without blanks -/

/-- An argument whose value is a path between markers. -/
def IsScoped (b : Binding) : Prop :=
  b.kind ≠ .string ∧ ∃ (m : Scope) (u : List Char), IsPath u ∧ b.value.toList = m.wrap u

/-- A path that is bound to nothing but to a path between markers. -/
structure IsScopable (t : Table) (e : List Char) : Prop where
  path : IsPath e
  binding : ∀ b, t.get? (String.ofList (boundName e)) = some b → IsScoped b

theorem scopedEntry_of_wrapped (he : IsPath e)
    (hb : t.get? (String.ofList (boundName e)) = some b) (hu : IsPath u)
    (hvalue : b.value.toList = m.wrap u) :
    scopedEntry t e = m.wrap (u ++ e.drop (boundName e).length) := by
  have hquote : '\x27' ∉ e := he.notMem (by decide)
  have hbare : strip (· == '\x27') (parameter e).text = e := strip_of_notMem hquote
  have hprefix : (parameter e).name.isPrefixOf e = true :=
    List.isPrefixOf_iff_prefix.mpr (boundName_prefix_self hquote)
  have hunwrap := Scope.unwrap_wrap (m := m) hu.ne_nil (notMem_of_isMainChar hu.chars)
  have hdetect : Scope.detect? b.value.toList = some m := by
    rw [hvalue, detect?_wrap hu.ne_nil hu.chars]
  rw [scopedEntry_of_detect hb hdetect, hvalue]
  simp only [Reference.scopedParameter, hbare, hprefix, if_true, hunwrap]
  rfl

theorem scopedEntry_spec (he : IsScopable t e) :
    IsSolid (scopedEntry t e) ∧ ∀ x, IsPath x → scopedEntry t e = x →
      t.get? (String.ofList (boundName x)) = none := by
  cases hb : t.get? (String.ofList (boundName e)) with
  | none =>
      rw [scopedEntry_of_free hb]
      refine ⟨he.path.isSolid, ?_⟩
      rintro x - rfl
      exact hb
  | some b =>
      obtain ⟨-, m, u, hu, hvalue⟩ := he.binding b hb
      rw [scopedEntry_of_wrapped he.path hb hu hvalue]
      constructor
      · intro c hc
        rw [Scope.wrap, List.mem_append, List.mem_append, List.mem_append] at hc
        rcases hc with (hc | hc | hc) | hc
        · rw [Scope.mem_mark hc]
          decide
        · exact hu.isSolid c hc
        · exact he.path.isSolid c (List.mem_of_mem_drop hc)
        · rw [Scope.mem_mark hc]
          decide
      · -- it starts with a mark, and no path has one
        rintro x hx rfl
        exfalso
        apply hx.notMem (c := '$') (by decide)
        cases m <;> simp [Scope.wrap]

theorem replaceEntry_call (hmain : IsPath main) (he : IsPath e) (hes : ∀ x ∈ es, IsSolid x) :
    replaceEntry e value (Written.call main es).text =
      (Written.call main (es.map fun x => if x = e then value else x)).text := by
  have hchars : ∀ c ∈ ['{', '}', '(', ')', ',', ' '], isMainChar c = false := by
    simp
    decide
  have hmap : es.map (replaceEntry e value) = es.map fun x => if x = e then value else x :=
    List.map_congr_left fun x hx => replaceEntry_of_isSolid he.ne_nil (hes x hx)
  rw [← hmap]
  apply Written.replaceWhere_call he.ne_nil (fun c hc => he.notMem (hchars c hc))
    isWholeEntry_behind_opening isWholeEntry_before_closing (isBorder_isWholeEntry (Or.inl rfl))
    (isBorder_isWholeEntry (Or.inr (by decide)))
  exact fun a b h => not_isWholeEntry_in_main hmain h _

/-- An entry while the references are applied: it is written anew once its own was. -/
def entryAfter (t : Table) (applied : List (List Char)) (e : List Char) : List Char :=
  if applied.contains e then scopedEntry t e else e

theorem entryAfter_append {applied : List (List Char)} {x : List Char} (hx : IsScopable t x)
    (he : IsPath e) (hbound : t.get? (String.ofList (boundName e)) = some b)
    (happlied : e ∉ applied) :
    entryAfter t (applied ++ [e]) x =
      if entryAfter t applied x = e then scopedEntry t e else entryAfter t applied x := by
  by_cases hmem : x ∈ applied
  · -- what is written for another entry is not taken for this one
    have hne : scopedEntry t x ≠ e := by
      intro heq
      have hfree := (scopedEntry_spec hx).2 e he heq
      rw [hbound] at hfree
      exact Option.some_ne_none b hfree
    simp [entryAfter, hmem, hne]
  · by_cases heq : x = e
    · subst heq
      simp [entryAfter, hmem]
    · simp [entryAfter, hmem, heq]

theorem isSolid_entryAfter (he : IsScopable t e) (applied : List (List Char)) :
    IsSolid (entryAfter t applied e) := by
  rw [entryAfter]
  split
  · exact (scopedEntry_spec he).1
  · exact he.path.isSolid

@[simp] theorem entryAfter_nil (t : Table) (e : List Char) : entryAfter t [] e = e := rfl

/-- A call in which the entries equal to applied references are written anew. -/
structure Progress.Scopes (t : Table) (main : List Char) (es : List (List Char)) (p : Progress) :
    Prop where
  text : p.text = (Written.call main (es.map (entryAfter t p.applied))).text
  replaced : p.replaced = []

theorem Progress.Scopes.next (hmain : IsPath main) (hes : ∀ x ∈ es, IsScopable t x)
    (he : e ∈ es) (h : p.Scopes t main es) :
    (p.next t (parameter e)).Scopes t main es ∧
      p.applied ⊆ (p.next t (parameter e)).applied ∧
      (e ∈ (p.next t (parameter e)).applied ∨ t.get? (String.ofList (boundName e)) = none) := by
  obtain ⟨hpath, hscoped⟩ := hes e he
  by_cases happlied : e ∈ p.applied
  · rw [Progress.next_of_applied (r := parameter e) happlied]
    exact ⟨h, fun _ hx => hx, Or.inl happlied⟩
  cases hb : t.get? (String.ofList (boundName e)) with
  | none =>
      rw [Progress.next_of_unbound (r := parameter e) hb]
      exact ⟨h, fun _ hx => hx, Or.inr rfl⟩
  | some b =>
      obtain ⟨hkind, m, u, hu, hvalue⟩ := hscoped b hb
      have hdetect : Scope.detect? b.value.toList = some m := by
        rw [hvalue, detect?_wrap hu.ne_nil hu.chars]
      have hsolid : ∀ x ∈ es.map (entryAfter t p.applied), IsSolid x := by
        intro x hx
        obtain ⟨y, hy, rfl⟩ := List.mem_map.mp hx
        exact isSolid_entryAfter (hes y hy) p.applied
      have hentries : es.map (entryAfter t (p.applied ++ [e])) =
          (es.map (entryAfter t p.applied)).map fun x => if x = e then scopedEntry t e else x := by
        rw [List.map_map]
        exact List.map_congr_left fun x hx =>
          entryAfter_append (hes x hx) hpath hb happlied
      rw [Progress.next_of_detect happlied (by simp [h.replaced]) hb hkind hdetect, h.text,
        replaceEntry_call hmain hpath hsolid, ← hentries]
      exact ⟨⟨rfl, h.replaced⟩, fun x hx => List.mem_append_left [e] hx, Or.inl (by simp)⟩

theorem Progress.Scopes.foldl (hmain : IsPath main) (hes : ∀ x ∈ es, IsScopable t x)
    {l : List (List Char)} (hl : ∀ x ∈ l, x ∈ es) (h : p.Scopes t main es) :
    ((l.map parameter).foldl (Progress.next t) p).Scopes t main es ∧
      p.applied ⊆ ((l.map parameter).foldl (Progress.next t) p).applied ∧
      ∀ x ∈ l, x ∈ ((l.map parameter).foldl (Progress.next t) p).applied ∨
        t.get? (String.ofList (boundName x)) = none := by
  -- the invariant speaks of all entries, while the references come one by one
  induction l generalizing p with
  | nil => exact ⟨h, fun _ hx => hx, by simp⟩
  | cons e l ih =>
      obtain ⟨hnext, hsub, hdone⟩ := h.next hmain hes (hl e List.mem_cons_self)
      obtain ⟨hrest, hsub', hdone'⟩ := ih (fun x hx => hl x (List.mem_cons_of_mem e hx)) hnext
      rw [List.map_cons, List.foldl_cons]
      refine ⟨hrest, fun x hx => hsub' (hsub hx), ?_⟩
      intro x hx
      rcases List.mem_cons.mp hx with rfl | hx
      · exact hdone.imp_left fun hmem => hsub' hmem
      · exact hdone' x hx

/-- What becomes of a call whose entries are paths and bound to paths between markers: each entry is
rewritten by itself, wherever and however often it stands. -/
theorem substituteAll_scoped_entries (hmain : IsPath main)
    (hfree : t.get? (String.ofList (boundName main)) = none)
    (hes : ∀ e ∈ es, IsScopable t e) :
    t.substituteAll (String.ofList (Written.call main es).text) =
      String.ofList (Written.call main (es.map (scopedEntry t))).text ∧
    ∀ e ∈ es, (t.get? (String.ofList (boundName e)) = none → scopedEntry t e = e) ∧
      ∀ (b : Binding) (m : Scope) (u : List Char),
        t.get? (String.ofList (boundName e)) = some b → IsPath u → b.value.toList = m.wrap u →
          ∃ rest, e = boundName e ++ rest ∧ scopedEntry t e = m.wrap (u ++ rest) := by
  constructor
  · have hfirst : es.map (entryAfter t []) = es :=
      (List.map_congr_left fun e _ => entryAfter_nil t e).trans (List.map_id es)
    have hstart : Progress.Scopes t main es ⟨(Written.call main es).text, [], []⟩ :=
      ⟨by rw [hfirst], rfl⟩
    obtain ⟨hend, -, hdone⟩ := hstart.foldl hmain hes (l := es) fun _ hx => hx
    rw [Written.substituteAll_call hmain (fun e he => (hes e he).path) hfree, hend.text]
    refine congrArg (fun es => String.ofList (Written.call main es).text)
      (List.map_congr_left fun e he => ?_)
    rcases hdone e he with happlied | hunbound
    · rw [entryAfter, if_pos (List.contains_iff_mem.mpr happlied)]
    · rw [entryAfter, scopedEntry_of_free hunbound, ite_self]
  · intro e he
    refine ⟨scopedEntry_of_free, fun b m u hb hu hvalue => ?_⟩
    obtain ⟨rest, hrest⟩ := boundName_prefix_self ((hes e he).path.notMem (c := '\x27') (by decide))
    have hdrop : (boundName e ++ rest).drop (boundName e).length = rest := List.drop_left
    rw [hrest] at hdrop
    refine ⟨rest, hrest.symm, ?_⟩
    rw [scopedEntry_of_wrapped (hes e he).path hb hu hvalue, hdrop]

/-- The values have markers of their own. -/
def markedGrid : Table :=
  Table.ofList [⟨"product", "$made.id$", .persisted⟩, ⟨"row", "$$product$$", .entity⟩]

/-- An entry that comes twice, one that is the head of another one, a value that is the name of an
argument, and an entry that is bound to nothing. -/
def gridEntries : List (List Char) :=
  ["product.sku".toList, "product".toList, "product.sku".toList, "row.no".toList,
    "products".toList]

theorem substituteAll_scoped_entries_grid :
    IsPath "Grid.row".toList ∧ markedGrid.get? "Grid" = none ∧
    (∀ e ∈ gridEntries, IsScopable markedGrid e) ∧
    markedGrid.substituteAll
        "\x7b\x7bGrid.row(product.sku, product, product.sku, row.no, products)\x7d\x7d" =
      "\x7b\x7bGrid.row($made.id.sku$, $made.id$, $made.id.sku$, $$product.no$$, products)\x7d\x7d" := by
  have hmain : IsPath "Grid.row".toList := by decide
  have hfree : markedGrid.get? "Grid" = none := by decide
  have hscoped : ∀ x ∈ markedGrid.entries, IsScoped x.2 := by
    intro x hx
    have hcases : x = ("product", ⟨"$made.id$", .persisted⟩) ∨
        x = ("row", ⟨"$$product$$", .entity⟩) := by
      simpa [markedGrid, Table.ofList, Table.insert, OrderedMap.insertEntry] using hx
    rcases hcases with rfl | rfl
    · exact ⟨by decide, .single, "made.id".toList, by decide, by decide⟩
    · exact ⟨by decide, .double, "product".toList, by decide, by decide⟩
  have hpaths : ∀ e ∈ gridEntries, IsPath e := by decide
  have hentries : ∀ e ∈ gridEntries, IsScopable markedGrid e :=
    fun e he => ⟨hpaths e he, fun _ hb => hscoped _ (OrderedMap.mem_entries_of_get? hb)⟩
  refine ⟨hmain, hfree, hentries, ?_⟩
  have hall := (substituteAll_scoped_entries hmain hfree hentries).1
  refine hall.trans ?_
  decide

/-! ## Entries with blanks -/

/-- Of references among which one is bound, this one is applied, and only once. -/
theorem foldl_next_once {l : List (List Char)} {s : List Char} (hr : r ∈ l)
    (hb : t.get? (String.ofList (boundName r)) = some b) (hkind : b.kind ≠ .string)
    (hdetect : Scope.detect? b.value.toList = some m)
    (hothers : ∀ e ∈ l, e ≠ r → t.get? (String.ofList (boundName e)) = none) :
    ((l.map parameter).foldl (Progress.next t) ⟨s, [], []⟩).text =
      replaceEntry r (scopedEntry t r) s := by
  induction l with
  | nil => exact absurd hr List.not_mem_nil
  | cons e l ih =>
      rw [List.map_cons, List.foldl_cons]
      by_cases heq : e = r
      · subst heq
        rw [Progress.next_of_detect List.not_mem_nil List.not_mem_nil hb hkind hdetect,
          foldl_next_of_idle]
        intro x hx
        obtain ⟨y, hy, rfl⟩ := List.mem_map.mp hx
        by_cases hne : y = e
        · exact Or.inl (List.mem_append_right [] (List.mem_singleton.mpr hne))
        · exact Or.inr (Or.inr (hothers y (List.mem_cons_of_mem e hy) hne))
      · have hfree := hothers e List.mem_cons_self heq
        have hrest : r ∈ l := (List.mem_cons.mp hr).resolve_left (Ne.symm heq)
        rw [Progress.next_of_unbound (r := parameter e) hfree]
        exact ih hrest fun x hx => hothers x (List.mem_cons_of_mem e hx)

theorem replaceEntry_list (hw : w.Formed) (hopen : 0 < w.opening) (hclose : 0 < w.closing)
    (hr : r ∈ w.references.parameters) :
    replaceEntry r value w.text =
      (w.withList ([','].intercalate ((pieces ',' w.list).map (replaceEntry r value)))).text := by
  obtain ⟨hentry, hmem⟩ := isEntry_of_mem_parameters hw hr
  have hsigns : ∀ c ∈ ['{', '}', '(', ')'], isListChar c = false := by
    simp
    decide
  have hchars : ∀ c ∈ ['{', '}', '(', ')'], c ∉ r := fun c hc hcr =>
    ne_of_isListChar (hw.list_chars c (hmem c hcr)) (hsigns c hc) rfl
  have hcomma : ∀ c ∈ [','], c ∉ r ∧ IsBorder isWholeEntry c := by
    intro c hc
    rw [List.mem_singleton.mp hc]
    exact ⟨comma_notMem_of_mem_commaList hr, isBorder_isWholeEntry (Or.inl rfl)⟩
  have hpieces := replaceWhere_intercalate value hentry.ne_nil (by simp) hcomma
    (pieces ',' w.list)
  rw [intercalate_pieces] at hpieces
  have hlist := Written.replaceWhere_text w value hentry.ne_nil hopen hclose hchars
    isWholeEntry_behind_opening isWholeEntry_before_closing fun a b h =>
      not_isWholeEntry_in_main ⟨hw.main_ne_nil, hw.main_chars⟩ h _
  rw [replaceEntry, hlist, hpieces]
  rfl

/-- What becomes of a placeholder if one of its parameters is bound, to an argument with a marker.
Each entry of the list is searched by itself. One that is the parameter when trimmed is replaced
between its blanks, and one in which the parameter does not stand is kept. A parameter that has no
blanks is replaced wherever it stands, also in an entry that goes on before or behind it. -/
theorem substituteAll_scoped_list (hw : w.Formed) (hopen : 0 < w.opening) (hclose : 0 < w.closing)
    (hfree : t.get? (String.ofList (boundName w.main)) = none)
    (hr : r ∈ w.references.parameters) (hb : t.get? (String.ofList (boundName r)) = some b)
    (hkind : b.kind ≠ .string) (hdetect : Scope.detect? b.value.toList = some m)
    (hothers : ∀ e ∈ w.references.parameters, e ≠ r →
      t.get? (String.ofList (boundName e)) = none) :
    t.substituteAll (String.ofList w.text) =
      String.ofList (w.withList ([','].intercalate
        ((pieces ',' w.list).map (replaceEntry r (scopedEntry t r))))).text ∧
    ∀ e ∈ pieces ',' w.list,
      (trim e = r → ∃ x y, (∀ c ∈ x ++ y, isBlank c = true) ∧ e = x ++ (r ++ y) ∧
        replaceEntry r (scopedEntry t r) e = x ++ (scopedEntry t r ++ y)) ∧
      (¬ Stands isWholeEntry r e → replaceEntry r (scopedEntry t r) e = e) ∧
      ((∀ c ∈ r, isBlank c = false) →
        (replaceEntry r (scopedEntry t r) e = e ↔
          ¬ Stands isWholeEntry r e ∨ scopedEntry t r = r)) := by
  obtain ⟨hentry, hmem⟩ := isEntry_of_mem_parameters hw hr
  constructor
  · rw [Written.substituteAll_text t hw (Written.greedy_of_opening hw hopen),
      substituteIn_of_unbound_main hfree, foldl_next_once hr hb hkind hdetect hothers,
      replaceEntry_list hw hopen hclose hr]
  · refine fun e _ => ⟨?_, replaceWhere_eq_self _, fun hblank => ?_⟩
    · intro htrim
      obtain ⟨x, y, he, hx, hy⟩ := exists_strip_eq isBlank e
      rw [← trim, htrim] at he
      refine ⟨x, y, ?_, he, ?_⟩
      · intro c hc
        exact (List.mem_append.mp hc).elim (hx c) (hy c)
      · rw [he]
        exact replaceEntry_between_blanks hentry.ne_nil (fun c hc => (hentry.head c hc).2.2) hx hy
    · apply replaceWhere_eq_self_iff hentry.ne_nil
      intro c after hacc hc
      -- a sign that ends an entry is in no parameter
      have hinside : endsEntry c = false := by
        apply endsEntry_of_isListChar (hw.list_chars c (hmem c hc)) _ (hblank c hc)
        rintro rfl
        exact comma_notMem_of_mem_commaList hr hc
      rw [not_isWholeEntry_behind hinside] at hacc
      exact Bool.false_ne_true hacc

/-- A list in which blanks stand before, behind and in an entry. -/
def spacedRow : Written :=
  ⟨"Grid.row".toList, 2, " product ,the product, products,'row'".toList, 1⟩

def madeProduct : Table :=
  Table.ofList [⟨"product", "$made$", .persisted⟩]

theorem substituteAll_scoped_list_spacedRow :
    spacedRow.Formed ∧ 0 < spacedRow.opening ∧ 0 < spacedRow.closing ∧
    madeProduct.get? "Grid" = none ∧ "product".toList ∈ spacedRow.references.parameters ∧
    madeProduct.get? "product" = some ⟨"$made$", .persisted⟩ ∧
    Scope.detect? "$made$".toList = some .single ∧
    (∀ e ∈ spacedRow.references.parameters, e ≠ "product".toList →
      madeProduct.get? (String.ofList (boundName e)) = none) ∧
    madeProduct.substituteAll (String.ofList spacedRow.text) =
      "\x7b\x7bGrid.row(( $made$ ,the $made$, products,'row')\x7d\x7d" ∧
    replaceEntry "product".toList (scopedEntry madeProduct "product".toList)
        "the product".toList ≠ "the product".toList := by
  have hformed : spacedRow.Formed :=
    ⟨by decide, List.all_eq_true.mp (by decide), List.all_eq_true.mp (by decide)⟩
  have hfree : madeProduct.get? "Grid" = none := by decide
  have hmem : "product".toList ∈ spacedRow.references.parameters := by decide
  have hbound : madeProduct.get? "product" = some ⟨"$made$", .persisted⟩ := by decide
  have hdetect : Scope.detect? "$made$".toList = some .single := by decide
  have hothers : ∀ e ∈ spacedRow.references.parameters, e ≠ "product".toList →
      madeProduct.get? (String.ofList (boundName e)) = none := by decide
  obtain ⟨hall, hentries⟩ := substituteAll_scoped_list hformed (by decide) (by decide) hfree hmem
    hbound (by decide) hdetect hothers
  refine ⟨hformed, by decide, by decide, hfree, hmem, hbound, hdetect, hothers, ?_, ?_⟩
  · rw [hall]
    decide
  · have hword : IsWord "product".toList := by decide
    have hkept := (hentries "the product".toList (by decide)).2.2 fun c hc =>
      isBlank_of_isWordChar (hword.chars c hc)
    rw [ne_eq, hkept]
    decide

/-- The last word of an entry is taken for the entry. -/
theorem not_kept_last_word :
    Written.references ⟨['M'], 1, "product, the product".toList, 1⟩ =
      ⟨['M'], ["product".toList, "the product".toList]⟩ ∧
    madeProduct.get? "M" = none ∧ madeProduct.get? "the product" = none ∧
    madeProduct.get? "product" = some ⟨"$made$", .persisted⟩ ∧
    Scope.detect? "$made$".toList = some .single ∧
    madeProduct.substituteAll
        (String.ofList (Written.text ⟨['M'], 1, "product, the product".toList, 1⟩)) ≠
      String.ofList (Written.text ⟨['M'], 1, "$made$, the product".toList, 1⟩) := by
  decide

end Placeholder

end StepTemplate
