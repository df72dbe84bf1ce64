import StepTemplate.Proofs.Placeholder.Scanning
import StepTemplate.Proofs.Text.Words

namespace StepTemplate

/-!
# Scanning what was written

A placeholder is usually written without parentheses if it has no parameters, and with one pair of
them and commas between the parameters otherwise. In a text in which such placeholders take turns
with literals that have no opening brace, a scan finds just these placeholders, each where it was
written, whatever closing braces and parentheses stand next to it.
-/

namespace Placeholder

open Text

variable {k : Nat} {w : Written} {p : Placeholder} {s literal ending : List Char}

/-! ## Main references and parameters -/

/-- A text that may be a main reference. -/
structure IsPath (e : List Char) : Prop where
  ne_nil : e ≠ []
  chars : ∀ c ∈ e, isMainChar c = true

instance (e : List Char) : Decidable (IsPath e) :=
  decidable_of_iff (e ≠ [] ∧ e.all isMainChar = true)
    ⟨fun h => ⟨h.1, List.all_eq_true.mp h.2⟩, fun h => ⟨h.ne_nil, List.all_eq_true.mpr h.chars⟩⟩

/-- A text that may be an entry of a parameter list. -/
structure IsParameter (e : List Char) : Prop where
  ne_nil : e ≠ []
  chars : ∀ c ∈ e, isListChar c = true
  notMem_comma : ',' ∉ e
  head : ∀ c ∈ e.head?, isBlank c = false
  last : ∀ c ∈ e.getLast?, isBlank c = false

instance (e : List Char) : Decidable (IsParameter e) :=
  decidable_of_iff (e ≠ [] ∧ e.all isListChar = true ∧ ',' ∉ e ∧
      e.head?.all (!isBlank ·) = true ∧ e.getLast?.all (!isBlank ·) = true) (by
    simp only [List.all_eq_true, Option.all_eq_true, Bool.not_eq_true']
    exact ⟨fun ⟨hne, hchars, hcomma, hhead, hlast⟩ => ⟨hne, hchars, hcomma, hhead, hlast⟩,
      fun h => ⟨h.ne_nil, h.chars, h.notMem_comma, h.head, h.last⟩⟩)

theorem isBlank_of_isMainChar {c : Char} (h : isMainChar c = true) : isBlank c = false := by
  simp only [isMainChar, Bool.or_eq_true, beq_iff_eq] at h
  rcases h with ((hword | rfl) | rfl) | rfl
  · exact isBlank_of_isWordChar hword
  · decide
  · decide
  · decide

theorem IsPath.notMem {e : List Char} (he : IsPath e) {c : Char} (hc : isMainChar c = false) :
    c ∉ e := by
  intro hmem
  simp [he.chars c hmem] at hc

theorem IsPath.isParameter {e : List Char} (he : IsPath e) : IsParameter e where
  ne_nil := he.ne_nil
  chars c hc := isListChar_of_isMainChar (he.chars c hc)
  notMem_comma := he.notMem (by decide)
  head c hc := isBlank_of_isMainChar (he.chars c (List.mem_of_mem_head? hc))
  last c hc := isBlank_of_isMainChar (he.chars c (List.mem_of_mem_getLast? hc))

/-! ## Written forms -/

namespace Written

/-- A placeholder without a parameter list. -/
def bare (n : List Char) : Written :=
  ⟨n, 0, [], 0⟩

theorem formed_bare {n : List Char} (hn : IsPath n) : (bare n).Formed :=
  ⟨hn.ne_nil, hn.chars, fun _ hc => absurd hc List.not_mem_nil⟩

theorem greedy_bare {n : List Char} (hn : IsPath n) : (bare n).Greedy := by
  rw [greedy_iff (formed_bare hn) []]
  exact stopsAt_cons.mpr (by decide)

/-- The main reference called with the given entries. -/
def call (main : List Char) (entries : List (List Char)) : Written :=
  ⟨main, 1, [',', ' '].intercalate entries, 1⟩

theorem isListChar_of_mem_intercalate {es : List (List Char)}
    (hes : ∀ e ∈ es, ∀ c ∈ e, isListChar c = true) :
    ∀ c ∈ [',', ' '].intercalate es, isListChar c = true := by
  induction es with
  | nil => simp
  | cons e es ih =>
      have he := hes e List.mem_cons_self
      have hrest := ih fun x hx => hes x (List.mem_cons_of_mem e hx)
      cases es with
      | nil => simpa using he
      | cons f es =>
          intro c hc
          rw [List.intercalate_cons_cons, List.mem_append, List.mem_append] at hc
          rcases hc with (hc | hc) | hc
          · exact he c hc
          · have hsep : c = ',' ∨ c = ' ' := by simpa using hc
            rcases hsep with rfl | rfl <;> decide
          · exact hrest c hc

theorem formed_call_of_isParameter {main : List Char} {entries : List (List Char)}
    (hmain : IsPath main) (hentries : ∀ e ∈ entries, IsParameter e) :
    (call main entries).Formed :=
  ⟨hmain.ne_nil, hmain.chars, isListChar_of_mem_intercalate fun e he => (hentries e he).chars⟩

theorem references_call_of_isParameter {main : List Char} {entries : List (List Char)}
    (hentries : ∀ e ∈ entries, IsParameter e) :
    (call main entries).references = ⟨main, entries⟩ := by
  refine congrArg (Placeholder.mk main) (commaList_intercalate fun e he => ?_)
  have hparameter := hentries e he
  exact ⟨hparameter.ne_nil, hparameter.notMem_comma,
    strip_eq_self hparameter.head hparameter.last⟩

theorem greedy_of_opening (hw : w.Formed) (hopen : 0 < w.opening) : w.Greedy := by
  obtain ⟨k, hk⟩ := Nat.exists_eq_succ_of_ne_zero hopen.ne'
  rw [greedy_iff hw [], behindMain, hk, List.replicate_succ]
  exact stopsAt_cons.mpr rfl

end Written

/-- The usual text of a placeholder. -/
def render (p : Placeholder) : List Char :=
  '{' :: '{' :: (p.main ++
    (if p.parameters = [] then [] else '(' :: ([',', ' '].intercalate p.parameters ++ [')'])) ++
      ['}', '}'])

/-- The references of a placeholder fit into its usual text. -/
structure IsWritable (p : Placeholder) : Prop where
  main : IsPath p.main
  parameters : ∀ e ∈ p.parameters, IsParameter e

instance (p : Placeholder) : Decidable p.IsWritable :=
  decidable_of_iff (IsPath p.main ∧ ∀ e ∈ p.parameters, IsParameter e)
    ⟨fun h => ⟨h.1, h.2⟩, fun h => ⟨h.main, h.parameters⟩⟩

/-- The usual text reads back as the placeholder. -/
theorem IsWritable.exists_written (hp : p.IsWritable) :
    ∃ w : Written, w.Formed ∧ w.Greedy ∧ w.text = p.render ∧ w.references = p := by
  obtain ⟨main, parameters⟩ := p
  by_cases hnil : parameters = []
  · subst hnil
    exact ⟨.bare main, Written.formed_bare hp.main, Written.greedy_bare hp.main,
      by simp [Written.text, Written.bare, render], rfl⟩
  · have hformed := Written.formed_call_of_isParameter hp.main hp.parameters
    refine ⟨.call main parameters, hformed, Written.greedy_of_opening hformed Nat.one_pos, ?_,
      Written.references_call_of_isParameter hp.parameters⟩
    simp [Written.text, Written.call, render, hnil]

/-! ## Literals and placeholders in turns -/

theorem Written.leading?_of_ne {c : Char} (hc : c ≠ '{') (s : List Char) :
    leading? (c :: s) = none := by
  cases h : leading? (c :: s) with
  | none => rfl
  | some w =>
      obtain ⟨-, -, rest, hs⟩ := leading?_spec h
      exact absurd (List.cons_eq_cons.mp hs).1 hc

theorem cut_literal_append (h : '{' ∉ literal) (s : List Char) :
    cut (literal ++ s) = literal.map .char ++ cut s := by
  induction literal with
  | nil => rfl
  | cons c literal ih =>
      rw [List.mem_cons, not_or] at h
      rw [List.cons_append, cut_cons_of_none (Written.leading?_of_ne (Ne.symm h.1) _), ih h.2,
        List.map_cons, List.cons_append]

theorem spansFrom_char_append (k : Nat) (literal : List Char) (ps : List Piece) :
    spansFrom k (literal.map .char ++ ps) = spansFrom (k + byteLength literal) ps := by
  induction literal generalizing k with
  | nil => rfl
  | cons c literal ih =>
      rw [List.map_cons, List.cons_append, spansFrom, ih, byteLength, Nat.add_assoc]

/-- A literal and a placeholder behind it lead to one span. -/
theorem spansFrom_cut_part (k : Nat) (hliteral : '{' ∉ literal) (hp : p.IsWritable)
    (s : List Char) :
    spansFrom k (cut (literal ++ p.render ++ s)) =
      ⟨k + byteLength literal, k + byteLength (literal ++ p.render), p⟩ ::
        spansFrom (k + byteLength (literal ++ p.render)) (cut s) := by
  obtain ⟨w, hw, hg, htext, href⟩ := hp.exists_written
  rw [List.append_assoc, cut_literal_append hliteral, spansFrom_char_append, ← htext,
    cut_text_append (Written.leading?_text_append hw hg s), spansFrom, href, byteLength_append,
    Nat.add_assoc]

theorem spansFrom_cut_literal (k : Nat) (h : '{' ∉ literal) : spansFrom k (cut literal) = [] := by
  have hcut := cut_literal_append h []
  have hspans := spansFrom_char_append k literal []
  rw [List.append_nil] at hcut
  rw [hcut, cut_nil, hspans, spansFrom]

/-- Literals, each with a placeholder behind it. -/
def renderParts (parts : List (List Char × Placeholder)) : List Char :=
  parts.flatMap fun x => x.1 ++ x.2.render

theorem renderParts_cons (literal : List Char) (p : Placeholder)
    (parts : List (List Char × Placeholder)) (s : List Char) :
    renderParts ((literal, p) :: parts) ++ s =
      literal ++ p.render ++ (renderParts parts ++ s) := by
  rw [renderParts, List.flatMap_cons, List.append_assoc]
  rfl

variable {parts : List (List Char × Placeholder)}

theorem map_placeholder_spansFrom (k : Nat)
    (hparts : ∀ x ∈ parts, '{' ∉ x.1 ∧ x.2.IsWritable) (hending : '{' ∉ ending) :
    (spansFrom k (cut (renderParts parts ++ ending))).map Span.placeholder =
      parts.map Prod.snd := by
  induction parts generalizing k with
  | nil => simpa [renderParts] using spansFrom_cut_literal k hending
  | cons x parts ih =>
      obtain ⟨hliteral, hp⟩ := hparts x List.mem_cons_self
      rw [renderParts_cons, spansFrom_cut_part k hliteral hp, List.map_cons, List.map_cons,
        ih _ fun y hy => hparts y (List.mem_cons_of_mem x hy)]

/-- The span of a placeholder is the place of its text. -/
theorem getElem?_spansFrom (k : Nat) {front back : List (List Char × Placeholder)}
    (hparts : ∀ x ∈ front ++ (literal, p) :: back, '{' ∉ x.1 ∧ x.2.IsWritable) :
    (spansFrom k (cut (renderParts (front ++ (literal, p) :: back) ++ ending)))[front.length]? =
      some ⟨k + byteLength (renderParts front ++ literal),
        k + byteLength (renderParts front ++ literal ++ p.render), p⟩ := by
  induction front generalizing k with
  | nil =>
      obtain ⟨hliteral, hp⟩ := hparts _ List.mem_cons_self
      rw [List.nil_append, renderParts_cons, spansFrom_cut_part k hliteral hp]
      rfl
  | cons x front ih =>
      obtain ⟨hliteral, hp⟩ := hparts x List.mem_cons_self
      rw [List.cons_append, renderParts_cons, spansFrom_cut_part k hliteral hp, List.length_cons,
        List.getElem?_cons_succ, ih _ fun y hy => hparts y (List.mem_cons_of_mem x hy),
        renderParts_cons, List.append_assoc _ (renderParts front ++ literal)]
      simp only [byteLength_append, Nat.add_assoc]

/-- Scanning undoes writing. In a text of placeholders, each behind a literal without an opening
brace, and one more such literal at the end, a scan finds these placeholders in their order, with
their main references and parameters; and the bytes that it reports of each are those from the end
of its literal to the end of its own text. -/
theorem scan_renderParts (hparts : ∀ x ∈ parts, '{' ∉ x.1 ∧ x.2.IsWritable)
    (hending : '{' ∉ ending) :
    scan (String.ofList (renderParts parts ++ ending)) = parts.map Prod.snd ∧
    ∀ front literal p back, parts = front ++ (literal, p) :: back →
      (spans (String.ofList (renderParts parts ++ ending)))[front.length]? =
        some ⟨(String.ofList (renderParts front ++ literal)).utf8ByteSize,
          (String.ofList (renderParts front ++ literal ++ p.render)).utf8ByteSize, p⟩ := by
  constructor
  · rw [scan, spans, String.toList_ofList]
    exact map_placeholder_spansFrom 0 hparts hending
  · rintro front literal p back rfl
    rw [spans, String.toList_ofList, getElem?_spansFrom 0 hparts, utf8ByteSize_ofList,
      utf8ByteSize_ofList, Nat.zero_add, Nat.zero_add]

/-- Two placeholders with a closing brace between them, and blanks inside of a parameter. -/
def gridParts : List (List Char × Placeholder) :=
  [("é) ".toList, ⟨"Grid.cell[0]".toList, ["the\u00a0 row".toList, "'$2'".toList]⟩),
    ("\x7d".toList, ⟨"url".toList, []⟩)]

theorem scan_renderParts_grid :
    (∀ x ∈ gridParts, '{' ∉ x.1 ∧ x.2.IsWritable) ∧ '{' ∉ ")\x7d".toList ∧
    String.ofList (renderParts gridParts ++ ")\x7d".toList) =
      "é) \x7b\x7bGrid.cell[0](the\u00a0 row, '$2')\x7d\x7d\x7d\x7b\x7burl\x7d\x7d)\x7d" ∧
    scan (String.ofList (renderParts gridParts ++ ")\x7d".toList)) =
      [⟨"Grid.cell[0]".toList, ["the\u00a0 row".toList, "'$2'".toList]⟩, ⟨"url".toList, []⟩] ∧
    (spans (String.ofList (renderParts gridParts ++ ")\x7d".toList)))[1]? =
      some ⟨38, 45, ⟨"url".toList, []⟩⟩ := by
  have hparts : ∀ x ∈ gridParts, '{' ∉ x.1 ∧ x.2.IsWritable := by decide
  have hending : '{' ∉ ")\x7d".toList := by decide
  obtain ⟨hscan, hspans⟩ := scan_renderParts hparts hending
  refine ⟨hparts, hending, by decide, hscan, ?_⟩
  exact (hspans [_] _ _ [] rfl).trans (by decide)

end Placeholder

end StepTemplate
