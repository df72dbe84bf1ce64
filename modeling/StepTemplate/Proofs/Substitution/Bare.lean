import StepTemplate.Proofs.Substitution.Joining
import StepTemplate.Proofs.Substitution.Path

namespace StepTemplate

/-!
# Placeholders of a bare name

A placeholder that is nothing but a name without a path gives way to what the name stands for. The
name fills all that is between the braces, so no search meets it a second time, and what comes in
its place is not looked at again.
-/

namespace Placeholder

open Text Argument

variable {t : Table} {b : Binding} {m : Scope} {n front back : List Char}

theorem isWordChar_of_not_isMainChar {c : Char} (h : isMainChar c = false) :
    isWordChar c = false := by
  simp only [isMainChar, Bool.or_eq_false_iff] at h
  exact h.1.1.1

/-- A path is found once between characters of which it has none. -/
theorem replaceWord_between (hn : IsPath n) (value : List Char)
    (hfront : ∀ c ∈ front, isMainChar c = false)
    (hback : ∀ c ∈ back, isMainChar c = false ∧ c ≠ '(') :
    replaceWord n value (front ++ (n ++ back)) = front ++ (value ++ back) := by
  obtain ⟨d, n, rfl⟩ := List.exists_cons_of_ne_nil hn.ne_nil
  have hd : isMainChar d = true := hn.chars d List.mem_cons_self
  apply replaceWhere_once
  · intro hmem
    simp [hfront d hmem] at hd
  · intro hmem
    simp [(hback d hmem).1] at hd
  · apply isWholeWord_of_not_isWordChar
    · exact fun c hc => isWordChar_of_not_isMainChar (hfront c (List.mem_of_getLast? hc))
    · intro c hc
      obtain ⟨hmain, hcall⟩ := hback c (List.mem_of_mem_head? hc)
      exact ⟨isWordChar_of_not_isMainChar hmain, hcall⟩

namespace Written

theorem text_bare (n : List Char) : (bare n).text = braced n := by
  simp [text, bare, braced]

theorem body_bare (n : List Char) : (bare n).body = n := by
  simp [body, bare]

end Written

/-! ## The reference applied -/

theorem name_bare (hn : IsPath n) (hdot : '.' ∉ n) : Reference.name ⟨n, .main⟩ = n :=
  boundName_of_bare hdot (hn.notMem (by decide))

theorem apply_bare_string (hn : IsPath n) (hdot : '.' ∉ n) (hkind : b.kind = .string) :
    Reference.apply ⟨n, .main⟩ b (braced n) = b.value.toList := by
  have hbare : Reference.isBareMain ⟨n, .main⟩ = true :=
    (Reference.isBareMain_iff hn.chars).mpr hdot
  have honce := replaceAll_once '{' b.value.toList [] ('{' :: (n ++ ['}', '}'])) []
    List.not_mem_nil List.not_mem_nil
  simp only [List.nil_append, List.append_nil] at honce
  simp only [Reference.apply, hkind, hbare, if_true, name_bare hn hdot]
  exact honce

theorem apply_bare_plain (hn : IsPath n) (hdot : '.' ∉ n) (hkind : b.kind ≠ .string)
    (hdetect : Scope.detect? b.value.toList = none) :
    Reference.apply ⟨n, .main⟩ b (braced n) = braced b.value.toList := by
  have hopen : ∀ c ∈ ['{', '{'], isMainChar c = false := by
    rw [List.forall_mem_cons, List.forall_mem_singleton]
    decide
  have hclose : ∀ c ∈ ['}', '}'], isMainChar c = false ∧ c ≠ '(' := by
    rw [List.forall_mem_cons, List.forall_mem_singleton]
    decide
  rw [Reference.apply_of_plain hkind hdetect, name_bare hn hdot]
  exact replaceWord_between hn b.value.toList hopen hclose

theorem not_isMainChar_of_mem_mark {c : Char} (hc : c ∈ m.mark) :
    isMainChar c = false ∧ c ≠ '(' := by
  rw [Scope.mem_mark hc]
  decide

theorem apply_bare_marked (hn : IsPath n) (hdot : '.' ∉ n) (hkind : b.kind ≠ .string)
    (hdetect : Scope.detect? b.value.toList = some m) :
    Reference.apply ⟨n, .main⟩ b (braced n) = m.wrap (Scope.unwrap b.value.toList) := by
  have hflip := flip_braces (Written.formed_bare hn) m
  rw [Written.text_bare, Written.body_bare, List.append_assoc] at hflip
  rw [(Reference.apply_of_detect hkind hdetect _).1 rfl, Reference.scopeMain, hflip,
    name_bare hn hdot, replaceWord_between hn _ (fun _ hc => (not_isMainChar_of_mem_mark hc).1)
      (fun _ hc => not_isMainChar_of_mem_mark hc), Scope.wrap, List.append_assoc]

/-- What a placeholder of a bare name becomes. -/
def bareText (t : Table) (n : List Char) : List Char :=
  match t.get? (String.ofList n) with
  | none => braced n
  | some b =>
    if b.kind = .string then b.value.toList
    else
      match Scope.detect? b.value.toList with
      | none => braced b.value.toList
      | some m => m.wrap (Scope.unwrap b.value.toList)

theorem substituteIn_bare (hn : IsPath n) (hdot : '.' ∉ n) :
    substituteIn t ⟨n, []⟩ (braced n) = bareText t n := by
  have hname := name_bare hn hdot
  rw [substituteIn_of_idle (by simp), bareText]
  cases hb : t.get? (String.ofList n) with
  | none => rw [Progress.next_of_unbound (hname.symm ▸ hb)]
  | some b =>
      rw [Progress.next_of_bound List.not_mem_nil List.not_mem_nil (hname.symm ▸ hb)]
      by_cases hkind : b.kind = .string
      · simp only [hkind, if_true]
        exact apply_bare_string hn hdot hkind
      · cases hdetect : Scope.detect? b.value.toList with
        | none => simp only [hkind, hdetect, if_false, apply_bare_plain hn hdot hkind hdetect]
        | some m => simp only [hkind, hdetect, if_false, apply_bare_marked hn hdot hkind hdetect]

/-- A bare name between braces is a placeholder wherever it stands in a text, and what it becomes
hangs on its argument alone. What is put in is not searched again, and the text before it and behind
it is substituted as if it stood by itself. -/
theorem substituteAll_bare (hn : IsPath n) (hdot : '.' ∉ n) (before after : String) :
    ⟨before.utf8ByteSize, (before ++ String.ofList (braced n)).utf8ByteSize, ⟨n, []⟩⟩ ∈
      spans (before ++ String.ofList (braced n) ++ after) ∧
    t.substituteAll (before ++ String.ofList (braced n) ++ after) =
      t.substituteAll before ++ String.ofList (bareText t n) ++ t.substituteAll after := by
  have hw := Written.formed_bare hn
  have hg := Written.greedy_bare hn
  have href : (Written.bare n).references = ⟨n, []⟩ := rfl
  rw [← Written.text_bare, ← substituteIn_bare hn hdot, ← Written.text_bare, ← href]
  exact ⟨mem_spans_around hw hg before after, Table.substituteAll_around hw hg t before after⟩

/-- A string with its own placeholder and its own name in it, an entity, and a value with two marks
in front and three behind. -/
def shelf : Table :=
  Table.ofList [⟨"item", "$\x7b\x7bitem\x7d\x7d item", .string⟩, ⟨"shop", "item", .entity⟩,
    ⟨"items[0]", "$$made[1]$$$", .entity⟩]

theorem substituteAll_bare_shelf :
    IsPath "item".toList ∧ '.' ∉ "item".toList ∧
    shelf.substituteAll "\x7b\x7bshop\x7d\x7d\x7b\x7b\x7b\x7bitem\x7d\x7d\x7d\x7d(item)" =
      "\x7b\x7bitem\x7d\x7d\x7b\x7b$\x7b\x7bitem\x7d\x7d item\x7d\x7d(item)" ∧
    IsPath "items[0]".toList ∧ '.' ∉ "items[0]".toList ∧
    shelf.substituteAll "$\x7b\x7bitems[0]\x7d\x7d\x7b\x7bno\x7d\x7d" =
      "$$$made[1]$$\x7b\x7bno\x7d\x7d" := by
  have hitem : IsPath "item".toList ∧ '.' ∉ "item".toList := by decide
  have hindexed : IsPath "items[0]".toList ∧ '.' ∉ "items[0]".toList := by decide
  have hstring := (substituteAll_bare (t := shelf) hitem.1 hitem.2
    "\x7b\x7bshop\x7d\x7d\x7b\x7b" "\x7d\x7d(item)").2
  have hmarked := (substituteAll_bare (t := shelf) hindexed.1 hindexed.2 "$"
    "\x7b\x7bno\x7d\x7d").2
  refine ⟨hitem.1, hitem.2, hstring.trans ?_, hindexed.1, hindexed.2, hmarked.trans ?_⟩
  · decide
  · decide

end Placeholder

end StepTemplate
