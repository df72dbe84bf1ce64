import StepTemplate.Proofs.Placeholder.Scanning
import StepTemplate.Substitution

namespace StepTemplate

/-!
# Texts put together

Text on either side of a placeholder neither hides it nor makes another one out of it. So two texts
may be cut and substituted one by one, unless a placeholder goes across the place where they meet.
-/

namespace Placeholder

open Text Argument

variable {k : Nat} {a b s : List Char} {w : Written} {text : String} {x y : Span}

/-! ## Cutting two texts -/

theorem Written.leading?_append (h : Written.leading? s = some w) (rest : List Char) :
    Written.leading? (s ++ rest) = some w := by
  obtain ⟨hw, hg, r, rfl⟩ := Written.leading?_spec h
  rw [List.append_assoc]
  exact Written.leading?_text_append hw hg (r ++ rest)

theorem Written.leading?_of_append {rest : List Char} (h : Written.leading? (s ++ rest) = some w)
    (hle : byteLength w.text ≤ byteLength s) : Written.leading? s = some w := by
  obtain ⟨hw, hg, r, hs⟩ := Written.leading?_spec h
  obtain ⟨t, ht, -⟩ | ⟨t, rfl, -⟩ := List.append_eq_append_iff.mp hs
  · rw [ht, byteLength_append] at hle
    obtain rfl : t = [] := eq_nil_of_byteLength (by omega)
    have hleading := Written.leading?_text_append hw hg []
    rwa [List.append_nil, ht, List.append_nil] at hleading
  · exact Written.leading?_text_append hw hg t

theorem mem_spansFrom_of_leading? (h : Written.leading? s = some w) :
    ⟨k, k + byteLength w.text, w.references⟩ ∈ spansFrom k (cut s) := by
  obtain ⟨-, -, rest, rfl⟩ := Written.leading?_spec h
  rw [cut_text_append h]
  exact List.mem_cons_self

/-- If no placeholder goes across the place where two texts meet, each is cut by itself. -/
theorem cut_append (h : ∀ x ∈ spansFrom k (cut (a ++ b)),
    ¬ (x.start < k + byteLength a ∧ k + byteLength a < x.stop)) :
    cut (a ++ b) = cut a ++ cut b := by
  induction a using cut_induction generalizing k with
  | nil => rfl
  | placeholder w rest hw ih =>
      have hw' := Written.leading?_append hw b
      rw [List.append_assoc] at h hw' ⊢
      rw [cut_text_append hw'] at h
      rw [cut_text_append hw', cut_text_append hw, List.cons_append,
        ih (k := k + byteLength w.text)]
      intro x hx hacross
      refine h x (List.mem_cons_of_mem _ hx) ?_
      rwa [byteLength_append, ← Nat.add_assoc]
  | char c s hnone ih =>
      cases hleading : Written.leading? (c :: s ++ b) with
      | some w =>
          -- a placeholder at the head would have to go across
          exfalso
          have hpos : 0 < c.utf8Size := c.utf8Size_pos
          have hacross := h _ (mem_spansFrom_of_leading? hleading)
          have hle : byteLength w.text ≤ byteLength (c :: s) := by
            simp only [byteLength] at hacross ⊢
            omega
          simp [Written.leading?_of_append hleading hle] at hnone
      | none =>
          rw [List.cons_append] at h hleading ⊢
          rw [cut_cons_of_none hleading] at h
          rw [cut_cons_of_none hleading, cut_cons_of_none hnone, List.cons_append,
            ih (k := k + c.utf8Size)]
          intro x hx hacross
          refine h x hx ?_
          rwa [byteLength, ← Nat.add_assoc]

theorem cut_of_spansFrom_eq_nil (h : spansFrom k (cut s) = []) : cut s = s.map .char := by
  induction s using cut_induction generalizing k with
  | nil => rfl
  | placeholder w rest hw _ =>
      rw [cut_text_append hw] at h
      exact absurd h (List.cons_ne_nil _ _)
  | char c s hnone ih =>
      rw [cut_cons_of_none hnone] at h ⊢
      rw [List.map_cons, ih h]

theorem spans_apart (hx : x ∈ spans text) (hy : y ∈ spans text) :
    x = y ∨ x.stop ≤ y.start ∨ y.stop ≤ x.start := by
  have hapart : (spans text).Pairwise fun x y => x.stop ≤ y.start ∨ y.stop ≤ x.start :=
    (pairwise_spansFrom 0 _).imp fun h => Or.inl h.2
  have : Std.Symm fun x y : Span => x.stop ≤ y.start ∨ y.stop ≤ x.start :=
    ⟨fun _ _ h => h.symm⟩
  by_cases heq : x = y
  · exact Or.inl heq
  · exact Or.inr (hapart.forall hx hy heq)

theorem mem_spans_around (hw : w.Formed) (hg : w.Greedy) (before after : String) :
    ⟨before.utf8ByteSize, (before ++ String.ofList w.text).utf8ByteSize, w.references⟩ ∈
      spans (before ++ String.ofList w.text ++ after) :=
  mem_spans.mpr ⟨w, hg, ⟨hw, before, after, rfl, rfl, rfl⟩, rfl⟩

/-- The pieces of a text around one of its placeholders. -/
theorem cut_around {before token after : String} (hx : x ∈ spans (before ++ token ++ after))
    (hstart : x.start = before.utf8ByteSize) (hstop : x.stop = (before ++ token).utf8ByteSize) :
    ∃ w : Written, w.text = token.toList ∧ w.references = x.placeholder ∧
      cut token.toList = [.placeholder w] ∧
      cut (before ++ token ++ after).toList =
        cut before.toList ++ .placeholder w :: cut after.toList := by
  obtain ⟨front, w, rest, htext, hw, heq⟩ := mem_spansFrom_cut.mp hx
  have hfront : byteLength before.toList = byteLength front := by
    rw [byteLength_toList, ← hstart]
    simp [heq]
  have hbehind : byteLength (before.toList ++ token.toList) = byteLength (front ++ w.text) := by
    rw [← String.toList_append, byteLength_toList, ← hstop]
    simp [heq]
  rw [String.toList_append, String.toList_append, ← List.append_assoc front] at htext
  obtain ⟨hmiddle, rfl⟩ := append_inj_of_byteLength htext hbehind
  obtain ⟨rfl, htoken⟩ := append_inj_of_byteLength hmiddle hfront
  obtain ⟨hf, hg, -⟩ := Written.leading?_spec hw
  refine ⟨w, htoken.symm, by rw [heq], ?_, ?_⟩
  · have hcut := cut_text_append (Written.leading?_text_append hf hg [])
    rwa [List.append_nil, cut_nil, ← htoken] at hcut
  · rw [String.toList_append, String.toList_append, List.append_assoc, htoken,
      ← cut_text_append hw]
    refine cut_append (k := 0) fun y hy hacross => ?_
    have hy' : y ∈ spans (before ++ token ++ after) := by
      rw [spans, String.toList_append, String.toList_append, List.append_assoc, htoken]
      exact hy
    rw [Nat.zero_add, byteLength_toList] at hacross
    rw [String.utf8ByteSize_append] at hstop
    rcases spans_apart hx hy' with rfl | h | h <;> omega

end Placeholder

namespace Argument.Table

open Text Placeholder

variable {t : Table}

theorem substitute_eq_piece {w : Written} {token : String} (hw : w.text = token.toList) :
    t.substitute w.references token = String.ofList (Piece.substitute t (.placeholder w)) := by
  rw [substitute, Piece.substitute, hw]

/-- A placeholder is substituted apart from the text around it. -/
theorem substituteAll_around {w : Written} (hw : w.Formed) (hg : w.Greedy) (t : Table)
    (before after : String) :
    t.substituteAll (before ++ String.ofList w.text ++ after) =
      t.substituteAll before ++ String.ofList (substituteIn t w.references w.text) ++
        t.substituteAll after := by
  obtain ⟨v, hv, href, -, hcut⟩ := cut_around (mem_spans_around hw hg before after) rfl rfl
  rw [String.toList_ofList] at hv
  have hpiece : Piece.substitute t (.placeholder v) = substituteIn t w.references w.text := by
    rw [Piece.substitute, href, hv]
  rw [substituteAll, hcut, List.flatMap_append, List.flatMap_cons, hpiece, String.ofList_append,
    String.ofList_append, String.append_assoc]
  rfl

/-- Placeholders are substituted one by one. Two texts with no placeholder across the place where
they meet are substituted apart; a text without placeholders stays as it is; and what becomes of a
placeholder hangs on its own text, wherever it stands. -/
theorem substituteAll_append (t : Table) :
    (∀ a b : String, (∀ x ∈ spans (a ++ b),
        ¬ (x.start < a.utf8ByteSize ∧ a.utf8ByteSize < x.stop)) →
      t.substituteAll (a ++ b) = t.substituteAll a ++ t.substituteAll b) ∧
    (∀ text, spans text = [] → t.substituteAll text = text) ∧
    ∀ before token after x, x ∈ spans (before ++ token ++ after) →
      x.start = before.utf8ByteSize → x.stop = (before ++ token).utf8ByteSize →
      t.substituteAll (before ++ token ++ after) =
          t.substituteAll before ++ t.substitute x.placeholder token ++ t.substituteAll after ∧
        t.substituteAll token = t.substitute x.placeholder token := by
  refine ⟨?_, ?_, ?_⟩
  · intro a b h
    have hcut : cut (a ++ b).toList = cut a.toList ++ cut b.toList := by
      rw [String.toList_append]
      refine cut_append (k := 0) fun x hx => ?_
      rw [Nat.zero_add, byteLength_toList]
      exact h x (by rwa [spans, String.toList_append])
    rw [substituteAll, hcut, List.flatMap_append, String.ofList_append]
    rfl
  · intro text h
    rw [substituteAll, cut_of_spansFrom_eq_nil h, List.flatMap_map]
    simp [Piece.substitute]
  · intro before token after x hx hstart hstop
    obtain ⟨w, hw, href, htoken, hcut⟩ := cut_around hx hstart hstop
    rw [← href, substitute_eq_piece hw]
    constructor
    · rw [substituteAll, hcut, List.flatMap_append, List.flatMap_cons, String.ofList_append,
        String.ofList_append, String.append_assoc]
      rfl
    · rw [substituteAll, htoken, List.flatMap_singleton]

/-! ## Braces where two texts meet -/

/-- The value of `a` is a placeholder for `b`. -/
def nested : Table :=
  ofList [⟨"a", "\x7b\x7bb\x7d\x7d", .string⟩, ⟨"b", "c", .entity⟩]

theorem substituteAll_append_braces :
    (∀ x ∈ spans ("x\x7b\x7b" ++ "\x7b\x7ba\x7d\x7d\x7d"),
      ¬ (x.start < "x\x7b\x7b".utf8ByteSize ∧ "x\x7b\x7b".utf8ByteSize < x.stop)) ∧
    spans "x\x7b\x7b" = [] ∧
    nested.substituteAll ("x\x7b\x7b" ++ "\x7b\x7ba\x7d\x7d\x7d") =
      "x\x7b\x7b\x7b\x7bb\x7d\x7d\x7d" ∧
    ⟨3, 8, ⟨['a'], []⟩⟩ ∈ spans ("x\x7b\x7b" ++ "\x7b\x7ba\x7d\x7d" ++ "\x7d") ∧
    nested.substituteAll "\x7b\x7ba\x7d\x7d" =
      nested.substitute ⟨['a'], []⟩ "\x7b\x7ba\x7d\x7d" := by
  have hmeet : ∀ x ∈ spans ("x\x7b\x7b" ++ "\x7b\x7ba\x7d\x7d\x7d"),
      ¬ (x.start < "x\x7b\x7b".utf8ByteSize ∧ "x\x7b\x7b".utf8ByteSize < x.stop) := by decide
  have hnone : spans "x\x7b\x7b" = [] := by decide
  have hsome : ⟨3, 8, ⟨['a'], []⟩⟩ ∈ spans ("x\x7b\x7b" ++ "\x7b\x7ba\x7d\x7d" ++ "\x7d") := by
    decide
  have hvalue : nested.substituteAll "\x7b\x7ba\x7d\x7d\x7d" = "\x7b\x7bb\x7d\x7d\x7d" := by decide
  obtain ⟨hjoin, hplain, haround⟩ := substituteAll_append nested
  refine ⟨hmeet, hnone, ?_, hsome, (haround _ _ _ _ hsome (by decide) (by decide)).2⟩
  rw [hjoin _ _ hmeet, hplain _ hnone, hvalue]
  decide

end Argument.Table

end StepTemplate
