import StepTemplate.Proofs.Substitution.Marks
import StepTemplate.Proofs.Substitution.Parameters

namespace StepTemplate

/-!
# Main references with a path

The argument of a path is its leading segment. The value takes its place, and also the place of
every later word equal to the argument's name, in the path or in the parameter list. So the rest of
the placeholder is kept just when the name does not stand in it again, or stands for itself.
-/

namespace Text

variable {name value front back rest : List Char}

theorem replaceWord_leading (value front back : List Char) (hname : IsWord name)
    (hfront : ∀ c ∈ front, isWordChar c = false) (hrest : rest.head? = some '.')
    (hback : ∀ c ∈ back, isWordChar c = false ∧ c ≠ '(')
    (hne : back ≠ []) :
    replaceWord name value (front ++ (name ++ rest) ++ back) =
      front ++ (value ++ replaceWord name value rest) ++ back := by
  have hstop : StopsAt isWordChar rest := by
    intro c hc
    obtain rfl : '.' = c := by simpa [hrest] using hc
    rfl
  have hcall : rest.head? ≠ some '(' := by simp [hrest]
  rw [List.append_assoc, replaceWord_enclosed hname value (name ++ rest) hfront hback hne,
    replaceWord_head hname hstop, if_neg hcall]
  simp only [List.append_assoc]

end Text

namespace Placeholder

open Text Argument

variable {t : Table} {b : Binding} {q : Placeholder} {w : Written} {n p rest : List Char}

/-- A text between the braces of a placeholder. -/
def braced (s : List Char) : List Char :=
  '{' :: '{' :: (s ++ ['}', '}'])

theorem body_of_text {s : List Char} (hw : w.text = braced s) : w.body = s := by
  rw [Written.text_eq_body, braced, List.cons.injEq, List.cons.injEq] at hw
  exact List.append_cancel_right hw.2.2

theorem head?_behind_path (hw : w.text = braced (n ++ rest)) (hmain : w.main = n ++ '.' :: p) :
    w.body = n ++ rest ∧ rest.head? = some '.' := by
  have hbody := body_of_text hw
  refine ⟨hbody, ?_⟩
  rw [Written.body, hmain] at hbody
  simp only [List.append_assoc, List.cons_append] at hbody
  rw [← List.append_cancel_left hbody, List.head?_cons]

/-- The main reference is the only one that is applied. -/
theorem substituteIn_of_bound_main {s : List Char}
    (hb : t.get? (String.ofList (boundName q.main)) = some b)
    (hfree : ∀ e ∈ q.parameters, t.get? (String.ofList (boundName e)) = none) :
    substituteIn t q s = Reference.apply ⟨q.main, .main⟩ b s := by
  have hmain := Progress.next_of_bound (r := ⟨q.main, .main⟩) (p := ⟨s, [], []⟩)
    List.not_mem_nil List.not_mem_nil hb
  rw [substituteIn_of_idle fun e he => Or.inr (Or.inr (hfree e he)), hmain]

theorem apply_path_of_plain (hn : IsWord n) (hw : w.Formed) (hmain : w.main = n ++ '.' :: p)
    (hplain : b.kind = .string ∨ Scope.detect? b.value.toList = none) (s : List Char) :
    Reference.apply ⟨w.main, .main⟩ b s = replaceWord n b.value.toList s := by
  have hname : Reference.name ⟨w.main, .main⟩ = n := by
    rw [Reference.name, hmain, boundName_path hn]
  have hlong : ¬ Reference.isBareMain ⟨w.main, .main⟩ = true := by
    rw [Reference.isBareMain_iff hw.main_chars, hmain]
    simp
  rw [← hname]
  by_cases hkind : b.kind = .string
  · rw [Reference.apply, hkind, if_neg hlong]
  · exact Reference.apply_of_plain hkind (hplain.resolve_left hkind) s

/-- What becomes of a placeholder whose main reference is a path, if no parameter is bound. The
name at the head gives way to the value, and so does every later word that equals the name; the
braces stay, or become marks if the value has some. What stands behind the head is kept just when
the name does not stand there as a word, or stands for itself. -/
theorem substituteAll_path
    (htoken : spans (String.ofList (braced (n ++ rest))) =
      [⟨0, (String.ofList (braced (n ++ rest))).utf8ByteSize, q⟩])
    (hn : IsWord n) (hmain : q.main = n ++ '.' :: p) (hb : t.get? (String.ofList n) = some b)
    (hfree : ∀ e ∈ q.parameters, t.get? (String.ofList (boundName e)) = none) :
    (b.kind = .string ∨ Scope.detect? b.value.toList = none →
      t.substituteAll (String.ofList (braced (n ++ rest))) =
        String.ofList (braced (b.value.toList ++ replaceWord n b.value.toList rest))) ∧
    (∀ m, b.kind ≠ .string → Scope.detect? b.value.toList = some m →
      t.substituteAll (String.ofList (braced (n ++ rest))) =
        String.ofList (m.wrap (Scope.unwrap b.value.toList ++
          replaceWord n (Scope.unwrap b.value.toList) rest))) ∧
    ∀ value, replaceWord n value rest = rest ↔ ¬ Stands isWholeWord n rest ∨ value = n := by
  obtain ⟨w, hw, rfl, hwtext, hcut⟩ := exists_written_of_spans htoken
  rw [String.toList_ofList] at hwtext
  obtain ⟨hbody, hdot⟩ := head?_behind_path hwtext hmain
  have hname : boundName w.references.main = n := by rw [hmain, boundName_path hn]
  have hall : t.substituteAll (String.ofList (braced (n ++ rest))) =
      String.ofList (Reference.apply ⟨w.main, .main⟩ b w.text) := by
    rw [Table.substituteAll, hcut, List.flatMap_singleton, Piece.substitute,
      substituteIn_of_bound_main (hname ▸ hb) hfree]
    rfl
  refine ⟨fun hplain => ?_, fun m hkind hdetect => ?_, fun value => ?_⟩
  · have hopen : ∀ c ∈ ['{', '{'], isWordChar c = false := by
      simp
      decide
    have hclose : ∀ c ∈ ['}', '}'], isWordChar c = false ∧ c ≠ '(' := by
      simp
      decide
    have hbraced := replaceWord_leading b.value.toList ['{', '{'] ['}', '}'] hn hopen hdot hclose
      (by simp)
    rw [hall, apply_path_of_plain hn hw hmain hplain, hwtext]
    exact congrArg String.ofList hbraced
  · have hmark : ∀ c ∈ m.mark, isWordChar c = false ∧ c ≠ '(' := fun c hc => by
      rw [Scope.mem_mark hc]
      decide
    have hwrapped := replaceWord_leading (Scope.unwrap b.value.toList) m.mark m.mark hn
      (fun c hc => (hmark c hc).1) hdot hmark (by cases m <;> simp)
    rw [hall, (Reference.apply_of_detect hkind hdetect _).1 rfl, Reference.scopeMain,
      flip_braces hw, hbody]
    exact congrArg String.ofList (hname ▸ hwrapped)
  · exact replaceWhere_eq_self_iff hn.ne_nil fun c _ => hn.notMem_of_isWholeWord

/-! ## A name that comes again -/

/-- The value of `product` has two marks. -/
def shop : Table :=
  Table.ofList [⟨"product", "$$made.item$$", .persisted⟩]

/-- The value of `category` has none. -/
def bookshop : Table :=
  Table.ofList [⟨"category", "Books", .entity⟩]

theorem substituteAll_path_shop :
    spans (String.ofList (braced ("product".toList ++ ".product_id[product](row.sku)".toList))) =
      [⟨0, 40, ⟨"product.product_id[product]".toList, ["row.sku".toList]⟩⟩] ∧
    IsWord "product".toList ∧ shop.get? "product" = some ⟨"$$made.item$$", .persisted⟩ ∧
    shop.get? "row" = none ∧ Scope.detect? "$$made.item$$".toList = some .double ∧
    shop.substituteAll
        (String.ofList (braced ("product".toList ++ ".product_id[product](row.sku)".toList))) =
      "$$made.item.product_id[made.item](row.sku)$$" ∧
    replaceWord "product".toList "made.item".toList ".product_id[product](row.sku)".toList ≠
      ".product_id[product](row.sku)".toList := by
  have htoken : spans
      (String.ofList (braced ("product".toList ++ ".product_id[product](row.sku)".toList))) =
        [⟨0, 40, ⟨"product.product_id[product]".toList, ["row.sku".toList]⟩⟩] := by decide
  have hword : IsWord "product".toList := by decide
  have hbound : shop.get? "product" = some ⟨"$$made.item$$", .persisted⟩ := by decide
  have hfree : shop.get? "row" = none := by decide
  have hdetect : Scope.detect? "$$made.item$$".toList = some .double := by decide
  obtain ⟨-, hmarked, hkept⟩ := substituteAll_path htoken hword
    (p := "product_id[product]".toList) rfl hbound (by decide)
  refine ⟨htoken, hword, hbound, hfree, hdetect, ?_, ?_⟩
  · rw [hmarked .double (by decide) hdetect]
    decide
  · rw [ne_eq, hkept]
    decide

/-- A name that comes again in the path, or in a parameter that is bound to nothing, is taken for
the argument. -/
theorem not_kept_category :
    spans (String.ofList (braced ("category".toList ++ ".category.name(row.category)".toList))) =
      [⟨0, 40, ⟨"category.category.name".toList, ["row.category".toList]⟩⟩] ∧
    IsWord "category".toList ∧ bookshop.get? "category" = some ⟨"Books", .entity⟩ ∧
    bookshop.get? "row" = none ∧ Scope.detect? "Books".toList = none ∧
    bookshop.substituteAll
        (String.ofList (braced ("category".toList ++ ".category.name(row.category)".toList))) ≠
      String.ofList (braced ("Books".toList ++ ".category.name(row.category)".toList)) := by
  decide

end Placeholder

end StepTemplate
