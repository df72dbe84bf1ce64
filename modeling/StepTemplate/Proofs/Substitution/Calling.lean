import StepTemplate.Proofs.Substitution.Bare

namespace StepTemplate

/-!
# Main references that are called

A name in front of an opening parenthesis is called, and a called name is never replaced. So where
the main reference is a bare name with a parameter list, its argument finds nothing to replace
there. If the argument is a string, a parameter of the same name is passed over as well, since the
reference counts as applied; and if its value has marks, they come to stand around the name itself.
-/

namespace Placeholder

open Text Argument

variable {t : Table} {b : Binding} {q : Placeholder} {m : Scope} {w : Written}
  {main n u value rest : List Char}

/-! ## A parameter with the name of a string -/

theorem text_call_one (main n : List Char) :
    (Written.call main [n]).text =
      ('{' :: '{' :: main) ++ '(' :: (n ++ [')', '}', '}']) := by
  simp [Written.call, Written.text]

theorem replaceWord_call_one (hn : IsWord n) (main value : List Char) :
    replaceWord n value (Written.call main [n]).text =
      replaceWord n value ('{' :: '{' :: (main ++ ['('])) ++ (value ++ [')', '}', '}']) := by
  have hclose : ∀ c ∈ [')', '}', '}'], isMainChar c = false ∧ c ≠ '(' := by
    rw [List.forall_mem_cons, List.forall_mem_cons, List.forall_mem_singleton]
    decide
  have hown : replaceWord n value ([] ++ (n ++ [')', '}', '}'])) =
      [] ++ (value ++ [')', '}', '}']) :=
    replaceWord_between (isPath_of_isWord hn) value (fun _ hc => absurd hc List.not_mem_nil) hclose
  rw [text_call_one, replaceWord_append_paren hn]
  exact congrArg _ hown

/-- Either the main reference has replaced the name already, or the parameter does it. -/
theorem substituteIn_call_one (hn : IsWord n) (hne : main ≠ n) {v : String}
    (hb : t.get? (String.ofList n) = some ⟨v, .string⟩)
    (hfree : boundName main ≠ n → t.get? (String.ofList (boundName main)) = none)
    (s : List Char) : substituteIn t ⟨main, [n]⟩ s = replaceWord n v.toList s := by
  have hname : (parameter n).name = n := boundName_of_isWord hn
  by_cases hbound : boundName main = n
  · have hself : Reference.name ⟨main, .main⟩ = n := hbound
    have hlong : Reference.isBareMain ⟨main, .main⟩ = false := by
      simp [Reference.isBareMain, hself, hne]
    have hnext := Progress.next_of_bound (t := t) (r := ⟨main, .main⟩) (p := ⟨s, [], []⟩)
      List.not_mem_nil List.not_mem_nil (hself.symm ▸ hb)
    rw [substituteIn_of_idle, hnext]
    · simp [Reference.apply, hlong, hself]
    · intro e he
      rw [List.mem_singleton.mp he, hnext]
      refine Or.inr (Or.inl ?_)
      simp [Reference.replacesWords, hlong, hself, hname]
  · have hnext := Progress.next_of_bound (t := t) (r := parameter n) (p := ⟨s, [], []⟩)
      List.not_mem_nil List.not_mem_nil (hname.symm ▸ hb)
    rw [substituteIn_of_unbound_main (hfree hbound), List.map_singleton, List.foldl_cons, hnext,
      List.foldl_nil]
    exact congrArg (replaceWord · v.toList s) hname

theorem replaceAll_braced_call (n value : List Char) (hparen : '(' ∉ n) (hopen : '{' ∉ n)
    (hclose : '}' ∉ n) :
    replaceAll (braced n) value (Written.call n [n]).text = (Written.call n [n]).text := by
  have hsep : '(' ∉ braced n := by simp [braced, hparen]
  have hfirst : '{' ∈ braced n := List.mem_cons_self
  have hlast : '}' ∈ braced n := by simp [braced]
  have hfront : '}' ∉ '{' :: '{' :: n := by simp [hclose]
  have hback : '{' ∉ n ++ [')', '}', '}'] := by simp [hopen]
  rw [text_call_one, replaceAll, replaceWhere_of_ne_nil (List.ne_nil_of_mem hfirst),
    replaceFrom_append_cons (List.ne_nil_of_mem hfirst) hsep,
    replaceFrom_of_missing _ _ _ hlast hfront, replaceFrom_of_missing _ _ _ hfirst hback]

/-- The main reference replaces nothing, and the parameter counts as applied. -/
theorem substituteIn_call_self (hn : IsWord n) {v : String}
    (hb : t.get? (String.ofList n) = some ⟨v, .string⟩) :
    substituteIn t ⟨n, [n]⟩ (Written.call n [n]).text = (Written.call n [n]).text := by
  have hname : Reference.name ⟨n, .main⟩ = n := boundName_of_isWord hn
  have hbare : Reference.isBareMain ⟨n, .main⟩ = true := by simp [Reference.isBareMain, hname]
  have hnext := Progress.next_of_bound (t := t) (r := ⟨n, .main⟩)
    (p := ⟨(Written.call n [n]).text, [], []⟩) List.not_mem_nil List.not_mem_nil (hname.symm ▸ hb)
  have hkept := replaceAll_braced_call n v.toList (hn.notMem (by decide)) (hn.notMem (by decide))
    (hn.notMem (by decide))
  rw [substituteIn_of_idle, hnext]
  · simp only [Reference.apply, hbare, if_true, hname]
    exact hkept
  · intro e he
    rw [List.mem_singleton.mp he, hnext]
    exact Or.inl (List.mem_singleton_self n)

theorem eq_of_paren_suffix (hn : IsWord n)
    (h : '(' :: (value ++ [')', '}', '}']) <:+ (Written.call n [n]).text) : value = n := by
  have hparen : '(' ∉ n := hn.notMem (by decide)
  have hfront : '(' ∉ '{' :: '{' :: n := by simp [hparen]
  have hback : '(' ∉ n ++ [')', '}', '}'] := by simp [hparen]
  obtain ⟨front, h⟩ := h
  have hsplit : ('{' :: '{' :: n) ++ '(' :: (n ++ [')', '}', '}']) =
      front ++ '(' :: (value ++ [')', '}', '}']) := (h.trans (text_call_one n n)).symm
  have hsame := ((List.append_cons_inj_of_notMem hfront hback).mp hsplit).2.2
  exact (List.append_cancel_right hsame).symm

/-- What becomes of a call with one parameter, the name of a string. The value takes the place of
the parameter, and of the name elsewhere in the main reference, unless the main reference is the
name itself: then nothing is replaced at all. So the text ends with the value in its parentheses
just when the main reference is not the name, or the name is its own value. -/
theorem substituteAll_lone_parameter {v : String} (hmain : IsPath main) (hn : IsWord n)
    (hb : t.get? (String.ofList n) = some ⟨v, .string⟩)
    (hfree : boundName main ≠ n → t.get? (String.ofList (boundName main)) = none) :
    (main ≠ n → t.substituteAll (String.ofList (Written.call main [n]).text) =
      String.ofList (replaceWord n v.toList ('{' :: '{' :: (main ++ ['('])) ++
        (v.toList ++ [')', '}', '}']))) ∧
    (main = n → t.substituteAll (String.ofList (Written.call main [n]).text) =
      String.ofList (Written.call main [n]).text) ∧
    ('(' :: (v.toList ++ [')', '}', '}']) <:+
        (t.substituteAll (String.ofList (Written.call main [n]).text)).toList ↔
      main ≠ n ∨ v.toList = n) := by
  have hentries : ∀ e ∈ [n], IsPath e := by simpa using isPath_of_isWord hn
  have hw := Written.formed_call hmain hentries
  have hall : t.substituteAll (String.ofList (Written.call main [n]).text) =
      String.ofList (substituteIn t ⟨main, [n]⟩ (Written.call main [n]).text) := by
    rw [Written.substituteAll_text t hw (Written.greedy_of_opening hw Nat.one_pos),
      Written.references_call hentries]
  by_cases hself : main = n
  · subst hself
    rw [hall, substituteIn_call_self hn hb, String.toList_ofList]
    refine ⟨fun h => absurd rfl h, fun _ => rfl, fun h => Or.inr (eq_of_paren_suffix hn h), ?_⟩
    rintro (h | h)
    · exact absurd rfl h
    · rw [h, text_call_one]
      exact List.suffix_append ('{' :: '{' :: main) _
  · obtain ⟨front, hfront⟩ := exists_replaceWord_paren hn v.toList ('{' :: '{' :: main)
    rw [hall, substituteIn_call_one hn hself hb hfree, replaceWord_call_one hn,
      String.toList_ofList]
    refine ⟨fun _ => rfl, fun h => absurd h hself, fun _ => Or.inl hself, fun _ => ?_⟩
    have hopen : replaceWord n v.toList ('{' :: '{' :: (main ++ ['('])) = front ++ ['('] := hfront
    rw [hopen, List.append_assoc]
    exact List.suffix_append front _

/-- The only argument is a string with its own name in it. -/
def rowTable : Table :=
  Table.ofList [⟨"row", "no (row", .string⟩]

theorem substituteAll_lone_parameter_rows :
    IsPath "row.rows[row]".toList ∧ IsWord "row".toList ∧
    rowTable.get? "row" = some ⟨"no (row", .string⟩ ∧
    rowTable.substituteAll "\x7b\x7brow.rows[row](row)\x7d\x7d" =
      "\x7b\x7bno (row.rows[no (row](no (row)\x7d\x7d" ∧
    "(no (row)\x7d\x7d".toList <:+
      (rowTable.substituteAll "\x7b\x7brow.rows[row](row)\x7d\x7d").toList := by
  have hmain : IsPath "row.rows[row]".toList := by decide
  have hword : IsWord "row".toList := by decide
  have hbound : rowTable.get? "row" = some ⟨"no (row", .string⟩ := by decide
  have hlong : "row.rows[row]".toList ≠ "row".toList := by decide
  have hfree : boundName "row.rows[row]".toList ≠ "row".toList →
      rowTable.get? (String.ofList (boundName "row.rows[row]".toList)) = none := by decide
  obtain ⟨hall, -, hends⟩ := substituteAll_lone_parameter hmain hword hbound hfree
  refine ⟨hmain, hword, hbound, (hall hlong).trans ?_, hends.mpr (Or.inl hlong)⟩
  decide

/-- A string is not inserted in a call of its own name. -/
theorem not_ends_with_row :
    IsPath "row".toList ∧ IsWord "row".toList ∧ rowTable.entries = [("row", ⟨"no (row", .string⟩)] ∧
    ¬ "(no (row)\x7d\x7d".toList <:+
      (rowTable.substituteAll
        (String.ofList (Written.call "row".toList ["row".toList]).text)).toList := by
  decide

/-! ## A main reference whose value has marks -/

theorem replaceWord_wrap (hn : IsWord n) (m : Scope) (value s : List Char) :
    replaceWord n value (m.wrap s) = m.wrap (replaceWord n value s) := by
  have hmark : ∀ c ∈ m.mark, isWordChar c = false ∧ c ≠ '(' := fun c hc =>
    (not_isMainChar_of_mem_mark hc).imp_left isWordChar_of_not_isMainChar
  have hne : m.mark ≠ [] := by cases m <;> simp
  rw [Scope.wrap, List.append_assoc, replaceWord_enclosed hn value s (fun c hc => (hmark c hc).1)
    hmark hne, Scope.wrap, List.append_assoc]

theorem wrap_ne_braced (m : Scope) (s s' : List Char) :
    String.ofList (m.wrap s) ≠ String.ofList (braced s') := by
  intro h
  have hhead := congrArg (fun text : String => text.toList.head?) h
  cases m <;> simp [Scope.wrap, braced] at hhead

/-- The name of the main reference ends where the word ends. -/
theorem stopsAt_behind_name (hw : w.Formed) (hg : w.Greedy) (hname : boundName w.main = n)
    (hbody : w.body = n ++ rest) : StopsAt isWordChar rest := by
  obtain ⟨p, hp, hdot⟩ := exists_boundName_append (e := w.main)
    fun h => absurd (hw.main_chars _ h) (by decide)
  have hpath : StopsAt isWordChar p := by
    intro c hc
    rw [hdot c hc]
    decide
  have hbehind : StopsAt isWordChar (w.behindMain []) := fun c hc =>
    isWordChar_of_not_isMainChar ((Written.greedy_iff hw []).mp hg c hc)
  have htext : rest ++ ['}', '}'] = p ++ w.behindMain [] := by
    have h := w.text_append []
    rw [List.append_nil, Written.text_eq_body, hbody, hp, hname] at h
    simpa using h
  have hboth := hpath.append hbehind
  rw [← htext] at hboth
  exact hboth.of_append

/-- The main reference takes all references of its name with it. -/
theorem substituteIn_of_marked_main (hmain : boundName q.main = n)
    (hb : t.get? (String.ofList n) = some b) (hkind : b.kind ≠ .string)
    (hdetect : Scope.detect? b.value.toList = some m)
    (hothers : ∀ e ∈ q.parameters, boundName e ≠ n → t.get? (String.ofList (boundName e)) = none)
    (s : List Char) :
    substituteIn t q s = Reference.scopeMain ⟨q.main, .main⟩ m b.value.toList s := by
  have hself : Reference.name ⟨q.main, .main⟩ = n := hmain
  have hnext := Progress.next_of_bound (t := t) (r := ⟨q.main, .main⟩) (p := ⟨s, [], []⟩)
    List.not_mem_nil List.not_mem_nil (hself.symm ▸ hb)
  have hwords : Reference.replacesWords ⟨q.main, .main⟩ b = true :=
    Reference.replacesWords_of_detect hkind hdetect
  rw [substituteIn_of_idle, hnext]
  · exact (Reference.apply_of_detect hkind hdetect s).1 rfl
  · intro e he
    rw [hnext, hwords]
    by_cases hname : boundName e = n
    · exact Or.inr (Or.inl (by simp [parameter, Reference.name, hname, hmain]))
    · exact Or.inr (Or.inr (hothers e he hname))

theorem prefix_called_iff (hn : IsWord n) (hu : IsPath u) (m : Scope) (rest : List Char) :
    m.mark ++ u <+: m.wrap ((if rest.head? = some '(' then n else u) ++ replaceWord n u rest) ↔
      rest.head? ≠ some '(' ∨ u <+: n := by
  rw [Scope.wrap, List.append_assoc, List.prefix_append_right_inj]
  by_cases hcall : rest.head? = some '('
  · obtain ⟨rest, rfl⟩ : ∃ s, rest = '(' :: s := List.head?_eq_some_iff.mp hcall
    rw [if_pos hcall, replaceWord_cons hn (by decide), List.append_assoc, List.cons_append]
    constructor
    · exact fun h => Or.inr (prefix_of_prefix_append_cons (hu.notMem (by decide)) h)
    · rintro (h | h)
      · exact absurd hcall h
      · exact h.trans (List.prefix_append n _)
  · rw [if_neg hcall, List.append_assoc]
    exact iff_of_true (List.prefix_append u _) (Or.inl hcall)

/-- What becomes of a placeholder whose main reference is bound to a value between marks. Its braces
become marks in any case. The name at its head gives way to the value unless it is called, and so
does each later word that equals the name. So a called name is left between the marks, and the text
does not begin as it should, except where the value is itself the head of the name. -/
theorem substituteAll_marked_name
    (htoken : spans (String.ofList (braced (n ++ rest))) =
      [⟨0, (String.ofList (braced (n ++ rest))).utf8ByteSize, q⟩])
    (hn : IsWord n) (hmain : boundName q.main = n) (hb : t.get? (String.ofList n) = some b)
    (hkind : b.kind ≠ .string) (hu : IsPath u) (hvalue : b.value.toList = m.wrap u)
    (hothers : ∀ e ∈ q.parameters, boundName e ≠ n →
      t.get? (String.ofList (boundName e)) = none) :
    t.substituteAll (String.ofList (braced (n ++ rest))) =
      String.ofList (m.wrap ((if rest.head? = some '(' then n else u) ++ replaceWord n u rest)) ∧
    (t.substituteAll (String.ofList (braced (n ++ rest))) = String.ofList (braced (n ++ rest)) ∨
        m.mark ++ u <+: (t.substituteAll (String.ofList (braced (n ++ rest)))).toList ↔
      rest.head? ≠ some '(' ∨ u <+: n) := by
  obtain ⟨w, hw, rfl, hwtext, hcut⟩ := exists_written_of_spans htoken
  rw [String.toList_ofList] at hwtext
  have hg : w.Greedy := (Written.leading?_spec (leading?_of_cut hcut)).2.1
  have hbody := body_of_text hwtext
  have hrest := stopsAt_behind_name hw hg hmain hbody
  have hdetect : Scope.detect? b.value.toList = some m := by
    rw [hvalue, detect?_wrap hu.ne_nil hu.chars]
  have hunwrap : Scope.unwrap b.value.toList = u := by
    rw [hvalue, Scope.unwrap_wrap hu.ne_nil (notMem_of_isMainChar hu.chars)]
  have hname : Reference.name ⟨w.references.main, .main⟩ = n := hmain
  have hall : t.substituteAll (String.ofList (braced (n ++ rest))) =
      String.ofList (m.wrap ((if rest.head? = some '(' then n else u) ++
        replaceWord n u rest)) := by
    rw [Table.substituteAll, hcut, List.flatMap_singleton, Piece.substitute,
      substituteIn_of_marked_main hmain hb hkind hdetect hothers, Reference.scopeMain,
      flip_braces hw, hname, hunwrap, ← Scope.wrap, replaceWord_wrap hn, hbody,
      replaceWord_head hn hrest]
  refine ⟨hall, ?_⟩
  rw [hall, String.toList_ofList, or_iff_right (wrap_ne_braced m _ _)]
  exact prefix_called_iff hn hu m rest

/-- The only argument has two marks. -/
def productTable : Table :=
  Table.ofList [⟨"product", "$$made.id$$", .entity⟩]

theorem substituteAll_marked_name_list :
    spans (String.ofList (braced ("product".toList ++ " ,product.sku)".toList))) =
      [⟨0, 25, ⟨"product".toList, ["product.sku".toList]⟩⟩] ∧
    IsWord "product".toList ∧ productTable.get? "product" = some ⟨"$$made.id$$", .entity⟩ ∧
    IsPath "made.id".toList ∧ "$$made.id$$".toList = Scope.double.wrap "made.id".toList ∧
    productTable.substituteAll
        (String.ofList (braced ("product".toList ++ " ,product.sku)".toList))) =
      "$$made.id ,made.id.sku)$$" ∧
    Scope.double.mark ++ "made.id".toList <+: (productTable.substituteAll
      (String.ofList (braced ("product".toList ++ " ,product.sku)".toList)))).toList := by
  have htoken : spans (String.ofList (braced ("product".toList ++ " ,product.sku)".toList))) =
      [⟨0, 25, ⟨"product".toList, ["product.sku".toList]⟩⟩] := by decide
  have hword : IsWord "product".toList := by decide
  have hbound : productTable.get? "product" = some ⟨"$$made.id$$", .entity⟩ := by decide
  have hpath : IsPath "made.id".toList := by decide
  have hvalue : "$$made.id$$".toList = Scope.double.wrap "made.id".toList := by decide
  obtain ⟨hall, hbegins⟩ := substituteAll_marked_name htoken hword (by decide) hbound (by decide)
    hpath hvalue (by decide)
  have hresult : productTable.substituteAll
      (String.ofList (braced ("product".toList ++ " ,product.sku)".toList))) =
        "$$made.id ,made.id.sku)$$" := hall.trans (by decide)
  refine ⟨htoken, hword, hbound, hpath, hvalue, hresult, ?_⟩
  apply (hbegins.mpr (Or.inl (by decide))).resolve_left
  rw [hresult]
  decide

/-- A called name is left between the marks. -/
theorem not_begins_with_made :
    spans (String.ofList (braced ("product".toList ++ "(row)".toList))) =
      [⟨0, 16, ⟨"product".toList, ["row".toList]⟩⟩] ∧
    productTable.entries = [("product", ⟨"$$made.id$$", .entity⟩)] ∧
    IsPath "made.id".toList ∧ "$$made.id$$".toList = Scope.double.wrap "made.id".toList ∧
    ¬ (productTable.substituteAll (String.ofList (braced ("product".toList ++ "(row)".toList))) =
          String.ofList (braced ("product".toList ++ "(row)".toList)) ∨
        Scope.double.mark ++ "made.id".toList <+: (productTable.substituteAll
          (String.ofList (braced ("product".toList ++ "(row)".toList)))).toList) := by
  decide

end Placeholder

end StepTemplate
