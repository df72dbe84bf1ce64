import StepTemplate.Proofs.Placeholder.Rendering
import StepTemplate.Substitution

namespace StepTemplate

/-!
# Parameter lists

Around a parameter list stand parentheses. An occurrence of what has no parenthesis keeps to one
side of them, so a replacement that spares the main reference is a replacement in the list, and
where borders divide the list it is one in each entry.
-/

namespace Placeholder

open Text Argument

variable {t : Table} {p : Progress} {r : Reference} {b : Binding} {w : Written} {q : Placeholder}
  {accept : Option Char → Option Char → Bool} {e n needle value : List Char}

/-! ## Bound names -/

theorem exists_boundName_append (hquote : '\x27' ∉ e) :
    ∃ p, e = boundName e ++ p ∧ ∀ c ∈ p.head?, c = '.' := by
  rw [boundName]
  split
  · refine ⟨e.dropWhile (· != '.'), List.takeWhile_append_dropWhile.symm, fun c hc => ?_⟩
    have hstop := stopsAt_dropWhile (· != '.') e c hc
    simpa using hstop
  · refine ⟨[], ?_, by simp⟩
    rw [strip_of_notMem hquote, List.append_nil]

theorem boundName_prefix_self (hquote : '\x27' ∉ e) : boundName e <+: e := by
  obtain ⟨p, hp, -⟩ := exists_boundName_append hquote
  exact ⟨p, hp.symm⟩

theorem boundName_of_bare (hdot : '.' ∉ e) (hquote : '\x27' ∉ e) : boundName e = e := by
  rw [boundName, if_neg hdot, strip_of_notMem hquote]

theorem boundName_of_isWord (hn : IsWord n) : boundName n = n :=
  boundName_of_bare (hn.notMem (by decide)) (hn.notMem (by decide))

theorem boundName_path (hn : IsWord n) (p : List Char) : boundName (n ++ '.' :: p) = n := by
  have hdot : ∀ c ∈ n, (c != '.') = true := by
    intro c hc
    rw [bne_iff_ne]
    rintro rfl
    exact hn.notMem (by decide) hc
  rw [boundName, if_pos (by simp)]
  exact takeWhile_append_of_stops hdot (by simp)

theorem Reference.isBareMain_iff {main : List Char} (hmain : ∀ c ∈ main, isMainChar c = true) :
    Reference.isBareMain ⟨main, .main⟩ = true ↔ '.' ∉ main := by
  have hbare : Reference.isBareMain ⟨main, .main⟩ = true ↔ main = boundName main := by
    simp [Reference.isBareMain, Reference.name]
  rw [hbare, boundName]
  by_cases hdot : '.' ∈ main
  · rw [if_pos hdot]
    refine iff_of_false (fun heq => ?_) (fun h => h hdot)
    rw [heq] at hdot
    simpa using List.mem_takeWhile_imp hdot
  · have hquote : '\x27' ∉ main := fun h => absurd (hmain _ h) (by decide)
    rw [if_neg hdot]
    exact iff_of_true (strip_of_notMem hquote).symm hdot

/-! ## Steps of a substitution -/

/-- A reference that has nothing to change any more. -/
def Progress.IsIdle (t : Table) (p : Progress) (r : Reference) : Prop :=
  r.text ∈ p.applied ∨ r.name ∈ p.replaced ∨ t.get? (String.ofList r.name) = none

theorem Progress.IsIdle.next_eq (h : p.IsIdle t r) : p.next t r = p := by
  rw [Progress.next]
  split
  · rfl
  · next hnew =>
    rw [not_or] at hnew
    rcases h with happlied | hreplaced | hfree
    · exact absurd happlied hnew.1
    · exact absurd hreplaced hnew.2
    · rw [hfree]

theorem Progress.next_of_unbound (h : t.get? (String.ofList r.name) = none) (p : Progress) :
    p.next t r = p :=
  IsIdle.next_eq (Or.inr (Or.inr h))

theorem Progress.next_of_applied (h : r.text ∈ p.applied) : p.next t r = p :=
  IsIdle.next_eq (Or.inl h)

theorem foldl_next_of_idle {refs : List Reference} (h : ∀ r ∈ refs, p.IsIdle t r) :
    refs.foldl (Progress.next t) p = p := by
  induction refs with
  | nil => rfl
  | cons r refs ih =>
      rw [List.foldl_cons, (h r List.mem_cons_self).next_eq]
      exact ih fun x hx => h x (List.mem_cons_of_mem r hx)

theorem Progress.next_of_bound (happlied : r.text ∉ p.applied) (hreplaced : r.name ∉ p.replaced)
    (hb : t.get? (String.ofList r.name) = some b) :
    p.next t r =
      ⟨r.apply b p.text, p.applied ++ [r.text],
        if r.replacesWords b then p.replaced ++ [r.name] else p.replaced⟩ := by
  rw [Progress.next, if_neg (not_or.mpr ⟨happlied, hreplaced⟩), hb]

/-- An entry of a parameter list as a reference. -/
def parameter (text : List Char) : Reference :=
  ⟨text, .parameter⟩

theorem substituteIn_eq (t : Table) (q : Placeholder) (s : List Char) :
    substituteIn t q s = ((q.parameters.map parameter).foldl (Progress.next t)
      (Progress.next t ⟨s, [], []⟩ ⟨q.main, .main⟩)).text := rfl

theorem substituteIn_of_idle {s : List Char} (h : ∀ e ∈ q.parameters,
    (Progress.next t ⟨s, [], []⟩ ⟨q.main, .main⟩).IsIdle t (parameter e)) :
    substituteIn t q s = (Progress.next t ⟨s, [], []⟩ ⟨q.main, .main⟩).text := by
  rw [substituteIn_eq, foldl_next_of_idle]
  intro r hr
  obtain ⟨e, he, rfl⟩ := List.mem_map.mp hr
  exact h e he

theorem substituteIn_of_unbound_main (h : t.get? (String.ofList (boundName q.main)) = none)
    (s : List Char) :
    substituteIn t q s =
      ((q.parameters.map parameter).foldl (Progress.next t) ⟨s, [], []⟩).text := by
  have hmain : Progress.next t ⟨s, [], []⟩ ⟨q.main, .main⟩ = ⟨s, [], []⟩ :=
    Progress.next_of_unbound h _
  rw [substituteIn_eq, hmain]

theorem Written.substituteAll_text (t : Table) (hw : w.Formed) (hg : w.Greedy) :
    t.substituteAll (String.ofList w.text) =
      String.ofList (substituteIn t w.references w.text) := by
  have hcut := cut_text_append (Written.leading?_text_append hw hg [])
  rw [List.append_nil, cut_nil] at hcut
  rw [Table.substituteAll, String.toList_ofList, hcut, List.flatMap_singleton, Piece.substitute]

theorem isPath_of_isWord {e : List Char} (he : IsWord e) : IsPath e :=
  ⟨he.ne_nil, fun c hc => by simp [isMainChar, he.chars c hc]⟩

/-! ## What stands in parentheses -/

namespace Written

/-- The placeholder with another text in the place of its parameter list. -/
def withList (w : Written) (list : List Char) : Written :=
  { w with list := list }

theorem formed_call {main : List Char} {entries : List (List Char)} (hmain : IsPath main)
    (hentries : ∀ e ∈ entries, IsPath e) : (call main entries).Formed :=
  formed_call_of_isParameter hmain fun e he => (hentries e he).isParameter

theorem references_call {main : List Char} {entries : List (List Char)}
    (hentries : ∀ e ∈ entries, IsPath e) : (call main entries).references = ⟨main, entries⟩ :=
  references_call_of_isParameter fun e he => (hentries e he).isParameter

theorem text_withList (hopen : 0 < w.opening) (hclose : 0 < w.closing) (list : List Char) :
    (w.withList list).text =
      ['{', '{'] ++ (w.main ++ '(' :: (List.replicate (w.opening - 1) '(' ++
        (list ++ ')' :: (List.replicate (w.closing - 1) ')' ++ ['}', '}'])))) := by
  obtain ⟨k, hk⟩ := Nat.exists_eq_succ_of_ne_zero hopen.ne'
  obtain ⟨l, hl⟩ := Nat.exists_eq_succ_of_ne_zero hclose.ne'
  simp [withList, text, hk, hl, List.replicate_succ]

/-- A replacement that spares the main reference is one in the parameter list. The neighbours
outside the list are its parentheses, and they have to count as its ends. -/
theorem replaceWhere_text (w : Written) (value : List Char) (hneedle : needle ≠ [])
    (hopen : 0 < w.opening) (hclose : 0 < w.closing)
    (hchars : ∀ c ∈ ['{', '}', '(', ')'], c ∉ needle)
    (hfirst : ∀ after, accept (some '(') after = accept none after)
    (hlast : ∀ before, accept before (some ')') = accept before none)
    (hmain : ∀ a b, w.main = a ++ (needle ++ b) →
      accept (a.getLast?.or (some '{')) (b.head?.or (some '(')) = false) :
    replaceWhere accept needle value w.text =
      (w.withList (replaceWhere accept needle value w.list)).text := by
  obtain ⟨d, s, rfl⟩ := List.exists_cons_of_ne_nil hneedle
  have hne : ∀ c ∈ ['{', '}', '(', ')'], d ≠ c := by
    rintro c hc rfl
    exact hchars d hc List.mem_cons_self
  have hbraces : d ∉ ['{', '{'] := by simp [hne]
  have hparens : d ∉ List.replicate (w.opening - 1) '(' := by simp [hne]
  have hend : d ∉ List.replicate (w.closing - 1) ')' ++ ['}', '}'] := by simp [hne]
  have hbefore : ∀ after,
      accept ((List.replicate (w.opening - 1) '(').getLast?.or (some '(')) after =
        accept none after := by
    intro after
    rw [← hfirst, List.getLast?_replicate]
    split <;> rfl
  have hspared := replaceFrom_eq_self (fun b a => accept b (a.or (some '('))) value (some '{')
    hneedle hmain
  have htext : w.text = _ := text_withList hopen hclose w.list
  rw [text_withList hopen hclose, htext, replaceWhere_of_ne_nil hneedle,
    replaceFrom_append_of_notMem _ _ _ _ _ hbraces,
    replaceFrom_append_cons hneedle (hchars '(' (by simp)),
    replaceFrom_append_of_notMem _ _ _ _ _ hparens, replaceFrom_congr_before hbefore,
    replaceFrom_append_border hneedle (hchars ')' (by simp)) hlast,
    replaceFrom_of_notMem _ _ _ _ hend, ← replaceWhere_of_ne_nil hneedle]
  exact congrArg (fun main => ['{', '{'] ++ (main ++ _)) hspared

/-- A replacement that spares the main reference is one in each entry, if the signs around the
entries are missing in the needle and count as ends of the text. -/
theorem replaceWhere_call {main : List Char} (hneedle : needle ≠ [])
    (hchars : ∀ c ∈ ['{', '}', '(', ')', ',', ' '], c ∉ needle)
    (hfirst : ∀ after, accept (some '(') after = accept none after)
    (hlast : ∀ before, accept before (some ')') = accept before none)
    (hcomma : IsBorder accept ',') (hblank : IsBorder accept ' ')
    (hmain : ∀ a b, main = a ++ (needle ++ b) →
      accept (a.getLast?.or (some '{')) (b.head?.or (some '(')) = false)
    (entries : List (List Char)) :
    replaceWhere accept needle value (call main entries).text =
      (call main (entries.map (replaceWhere accept needle value))).text := by
  have hseps : ∀ c ∈ [',', ' '], c ∉ needle ∧ IsBorder accept c := by
    intro c hc
    have hsep : c = ',' ∨ c = ' ' := by simpa using hc
    rcases hsep with rfl | rfl
    · exact ⟨hchars _ (by simp), hcomma⟩
    · exact ⟨hchars _ (by simp), hblank⟩
  have hparens : ∀ c ∈ ['{', '}', '(', ')'], c ∉ needle :=
    fun c hc => hchars c (List.mem_append_left [',', ' '] hc)
  have hlist := replaceWhere_intercalate value hneedle (by simp) hseps entries
  have htext := replaceWhere_text (call main entries) value hneedle Nat.one_pos
    Nat.one_pos hparens hfirst hlast hmain
  rw [htext]
  exact congrArg (fun list => ((call main entries).withList list).text) hlist

theorem substituteAll_call {main : List Char} {entries : List (List Char)} (hmain : IsPath main)
    (hentries : ∀ e ∈ entries, IsPath e) (hfree : t.get? (String.ofList (boundName main)) = none) :
    t.substituteAll (String.ofList (call main entries).text) =
      String.ofList ((entries.map parameter).foldl (Progress.next t)
        ⟨(call main entries).text, [], []⟩).text := by
  have hformed := formed_call hmain hentries
  rw [Written.substituteAll_text t hformed (greedy_of_opening hformed Nat.one_pos),
    references_call hentries, substituteIn_of_unbound_main hfree]

end Written

end Placeholder

end StepTemplate
