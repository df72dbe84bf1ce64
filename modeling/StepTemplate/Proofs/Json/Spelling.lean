import StepTemplate.Json.Decoding
import StepTemplate.Proofs.Json.Grammar

namespace StepTemplate

/-!
# The texts of a tree

A text spells a list of tokens if it consists of them, with any blanks between them. All texts that
the grammar has for a tree spell the same tokens, and these tokens are read back as the tree.
-/

namespace Json

open Text

variable {s rest : List Char} {symbols : List Symbol} {t : Token} {ts : List Token}

namespace Token

/-- A text with the given tokens. A token takes up the character `c` and the text `used`. -/
inductive Spells : List Token → List Char → Prop where
  | nil (blanks : List Char) (hblanks : ∀ c ∈ blanks, isSpace c = true) : Spells [] blanks
  | cons (blanks : List Char) (c : Char) (used rest : List Char) (t : Token) (ts : List Token)
      (hblanks : ∀ c ∈ blanks, isSpace c = true) (hc : isSpace c = false)
      (ht : read? c (used ++ rest) = some (t, rest)) (hrest : Spells ts rest) :
      Spells (t :: ts) (blanks ++ c :: (used ++ rest))

theorem readAll_of_spells (h : Spells ts s) {fuel : Nat} (hfuel : s.length ≤ fuel) :
    readAll fuel s = ts := by
  -- each token takes up a character at least, so the length is fuel enough
  induction h generalizing fuel with
  | nil blanks hblanks =>
      cases fuel with
      | zero => rfl
      | succ fuel => rw [readAll, List.dropWhile_eq_nil_iff.mpr hblanks]
  | cons blanks c used rest t ts hblanks hc ht hrest ih =>
      have hdrop : (blanks ++ c :: (used ++ rest)).dropWhile isSpace = c :: (used ++ rest) :=
        dropWhile_append_of_stops hblanks (stopsAt_cons.mpr hc)
      simp only [List.length_append, List.length_cons] at hfuel
      cases fuel with
      | zero => omega
      | succ fuel =>
          simp only [readAll, hdrop, ht]
          rw [ih (by omega)]

theorem ofText_of_spells (h : Spells ts s) : ofText s = ts :=
  readAll_of_spells h le_rfl

theorem Spells.blanks {blanks : List Char} (hblanks : ∀ c ∈ blanks, isSpace c = true)
    (h : Spells ts s) : Spells ts (blanks ++ s) := by
  cases h with
  | nil blanks' hblanks' =>
      exact .nil _ (List.forall_mem_append.mpr ⟨hblanks, hblanks'⟩)
  | cons blanks' c used rest t ts hblanks' hc ht hrest =>
      rw [← List.append_assoc]
      exact .cons _ c used rest t ts (List.forall_mem_append.mpr ⟨hblanks, hblanks'⟩) hc ht hrest

theorem Spells.token (h : Spells ts rest) {c : Char} (used : List Char) (hc : isSpace c = false)
    (ht : read? c (used ++ rest) = some (t, rest)) :
    Spells (t :: ts) (c :: (used ++ rest)) :=
  .cons [] c used rest t ts (by simp) hc ht h

theorem Spells.sign {c : Char} (hc : (c, t) ∈ punctuation) (h : Spells ts s) :
    Spells (t :: ts) (c :: s) := by
  simp only [punctuation, List.mem_cons, List.not_mem_nil, or_false, Prod.mk.injEq] at hc
  rcases hc with ⟨rfl, rfl⟩ | ⟨rfl, rfl⟩ | ⟨rfl, rfl⟩ | ⟨rfl, rfl⟩ | ⟨rfl, rfl⟩ | ⟨rfl, rfl⟩ <;>
    exact h.token [] rfl rfl

theorem Spells.text (h : Spells ts rest) (hs : Quoted.IsWrittenAs symbols s) :
    Spells (.text ((Quoted.chars? symbols).map String.ofList) :: ts)
      ('"' :: ((s ++ ['"']) ++ rest)) := by
  have hread := Quoted.read?_of_isWrittenAs hs rest
  refine h.token _ rfl ?_
  rw [List.append_assoc, List.singleton_append]
  unfold read?
  change (Quoted.read? _).map _ = _
  rw [hread]
  rfl

theorem Spells.number {n : Numeral} (h : Spells ts rest) (hrest : StopsAt Numeral.isTail rest)
    (hs : Numeral.IsWrittenAs n s) : Spells (.number n :: ts) (s ++ rest) := by
  have hread := Numeral.read?_of_isWrittenAs hrest hs
  obtain ⟨c, used, rfl, hc⟩ := hs.exists_cons
  rw [List.cons_append] at hread ⊢
  -- nothing else starts with a minus or a digit
  have hother : ∀ d : Char, d ≠ '-' → d.isDigit = false → c ≠ d := by
    rintro d hminus hdigit rfl
    rcases hc with rfl | hc
    · exact hminus rfl
    · simp [hdigit] at hc
  have hlookup : punctuation.lookup c = none := by
    rw [List.lookup_eq_none_iff]
    simp [punctuation, hother, Char.isDigit]
  have hquote : c ≠ '"' := hother '"' (by decide) (by decide)
  have hnumber : (decide (c = '-') || c.isDigit) = true := by simpa using hc
  refine h.token used ?_ ?_
  · simp [isSpace, hother, Char.isDigit]
  · unfold read?
    rw [hlookup]
    dsimp only
    rw [if_neg hquote, if_pos hnumber, hread]
    rfl

end Token

/-! ## Tokens of the texts of a tree -/

open Token

variable {n x v : Node} {items : Items} {members : Members} {key : Option String}
  {k u front back : List Char}

/-- A text of a value, in front of anything that does not go on with a number. -/
def Node.HasText (n : Node) (s : List Char) : Prop :=
  ∀ ts rest, StopsAt Numeral.isTail rest → Spells ts rest → Spells (n.tokens ++ ts) (s ++ rest)

/-- A text of items and the closing bracket. -/
def Items.HasText (items : Items) (s : List Char) : Prop :=
  ∀ ts rest, Spells ts rest → Spells (items.tokens ++ ts) (s ++ rest)

/-- A text of members and the closing brace. -/
def Members.HasText (members : Members) (s : List Char) : Prop :=
  ∀ ts rest, Spells ts rest → Spells (members.tokens ++ ts) (s ++ rest)

theorem IsBlank.stopsAt (h : IsBlank front) (hrest : StopsAt Numeral.isTail rest) :
    StopsAt Numeral.isTail (front ++ rest) := by
  refine StopsAt.append (stopsAt_of_forall fun c hc => ?_) hrest
  have hspace := h c hc
  simp only [isSpace, Bool.or_eq_true, beq_iff_eq] at hspace
  rcases hspace with ((rfl | rfl) | rfl) | rfl <;> rfl

theorem stopsAt_isTail_sign {c : Char} (hc : c = ',' ∨ c = ':' ∨ c = ']' ∨ c = '\x7d')
    (s : List Char) : StopsAt Numeral.isTail (c :: s) := by
  rcases hc with rfl | rfl | rfl | rfl <;> exact stopsAt_cons.mpr rfl

theorem Node.HasText.padded (h : n.HasText s) (hfront : IsBlank front) (hback : IsBlank back) :
    n.HasText (front ++ (s ++ back)) := by
  intro ts rest hrest hts
  rw [List.append_assoc, List.append_assoc]
  exact (h ts _ (hback.stopsAt hrest) (hts.blanks hback)).blanks hfront

theorem Node.hasText_null : Node.null.HasText ['n', 'u', 'l', 'l'] :=
  fun _ _ _ hts => hts.token ['u', 'l', 'l'] rfl rfl

theorem Node.hasText_true : (Node.boolean true).HasText ['t', 'r', 'u', 'e'] :=
  fun _ _ _ hts => hts.token ['r', 'u', 'e'] rfl rfl

theorem Node.hasText_false : (Node.boolean false).HasText ['f', 'a', 'l', 's', 'e'] :=
  fun _ _ _ hts => hts.token ['a', 'l', 's', 'e'] rfl rfl

theorem Items.HasText.array (h : items.HasText s) : (Node.array items).HasText ('[' :: s) :=
  fun ts rest _ hts => (h ts rest hts).sign (by decide)

theorem Members.HasText.object (h : members.HasText s) :
    (Node.object members).HasText ('\x7b' :: s) :=
  fun ts rest _ hts => (h ts rest hts).sign (by decide)

theorem Items.hasText_closed (h : IsBlank front) : Items.closed.HasText (front ++ [']']) := by
  intro ts rest hts
  rw [List.append_assoc]
  exact (hts.sign (by decide)).blanks h

theorem Items.hasText_last (hx : x.HasText s) : (Items.cons x .closed).HasText (s ++ [']']) := by
  intro ts rest hts
  rw [Items.tokens_last, List.append_assoc, List.append_assoc]
  exact hx _ _ (stopsAt_isTail_sign (by simp) rest) (hts.sign (by decide))

theorem Items.hasText_more {y : Node} {ys : Items} (hx : x.HasText s)
    (hys : (Items.cons y ys).HasText u) :
    (Items.cons x (.cons y ys)).HasText (s ++ ',' :: u) := by
  intro ts rest hts
  rw [Items.tokens_more, List.append_assoc, List.append_assoc]
  exact hx _ _ (stopsAt_isTail_sign (by simp) _) ((hys ts rest hts).sign (by decide))

theorem Members.hasText_closed (h : IsBlank front) :
    Members.closed.HasText (front ++ ['\x7d']) := by
  intro ts rest hts
  rw [List.append_assoc]
  exact (hts.sign (by decide)).blanks h

theorem spells_member (hk : (Node.text key).HasText k) (h : Spells ts s) :
    Spells (.text key :: .colon :: ts) (k ++ ':' :: s) :=
  hk _ _ (stopsAt_isTail_sign (by simp) s) (h.sign (by decide))

theorem Members.hasText_last (hk : (Node.text key).HasText k) (hv : v.HasText s) :
    (Members.cons (.text key) v .closed).HasText (k ++ ':' :: (s ++ ['\x7d'])) := by
  intro ts rest hts
  have hclosed : Spells (.closeObject :: ts) ('\x7d' :: rest) := hts.sign (by decide)
  have hmember := spells_member hk (hv _ _ (stopsAt_isTail_sign (by simp) rest) hclosed)
  simpa only [Members.tokens_last, List.cons_append, List.append_assoc, List.nil_append]
    using hmember

theorem Members.hasText_more {l w : Node} {ms : Members} (hk : (Node.text key).HasText k)
    (hv : v.HasText s) (hms : (Members.cons l w ms).HasText u) :
    (Members.cons (.text key) v (.cons l w ms)).HasText (k ++ ':' :: (s ++ ',' :: u)) := by
  intro ts rest hts
  have hrest : Spells (.comma :: ((Members.cons l w ms).tokens ++ ts)) (',' :: (u ++ rest)) :=
    (hms ts rest hts).sign (by decide)
  have hmember := spells_member hk (hv _ _ (stopsAt_isTail_sign (by simp) _) hrest)
  simpa only [Members.tokens_more, List.cons_append, List.append_assoc] using hmember

mutual

theorem Node.hasText_of_isWrittenAs {s : List Char} (n : Node) (h : n.IsWrittenAs s) :
    n.HasText s := by
  cases h with
  | null => exact Node.hasText_null
  | boolean_true => exact Node.hasText_true
  | boolean_false => exact Node.hasText_false
  | number m s h => exact fun _ _ hrest hts => hts.number hrest h
  | text symbols s h => exact fun _ _ _ hts => hts.text h
  | array items s h => exact (Items.hasText_of_isWrittenAs items h).array
  | object members s h => exact (Members.hasText_of_isWrittenAs members h).object
termination_by sizeOf n

theorem Items.hasText_of_isWrittenAs {s : List Char} (items : Items) (h : items.IsWrittenAs s) :
    items.HasText s := by
  cases h with
  | closed blanks hblanks => exact Items.hasText_closed hblanks
  | last x s hx =>
      obtain ⟨_, _, _, _, hfront, hback, hx⟩ := hx
      exact Items.hasText_last ((Node.hasText_of_isWrittenAs x hx).padded hfront hback)
  | more x y ys s t hx hys =>
      obtain ⟨_, _, _, _, hfront, hback, hx⟩ := hx
      exact Items.hasText_more ((Node.hasText_of_isWrittenAs x hx).padded hfront hback)
        (Items.hasText_of_isWrittenAs (.cons y ys) hys)
termination_by sizeOf items

theorem Members.hasText_of_isWrittenAs {s : List Char} (members : Members)
    (h : members.IsWrittenAs s) : members.HasText s := by
  cases h with
  | closed blanks hblanks => exact Members.hasText_closed hblanks
  | last key v k s hk hv =>
      obtain ⟨_, _, _, _, hfront, hback, hk⟩ := hk
      obtain ⟨_, _, _, _, hfront', hback', hv⟩ := hv
      have hkey := (Node.hasText_of_isWrittenAs (.text key) hk).padded hfront hback
      exact Members.hasText_last hkey ((Node.hasText_of_isWrittenAs v hv).padded hfront' hback')
  | more key v l w ms k s t hk hv hms =>
      obtain ⟨_, _, _, _, hfront, hback, hk⟩ := hk
      obtain ⟨_, _, _, _, hfront', hback', hv⟩ := hv
      have hkey := (Node.hasText_of_isWrittenAs (.text key) hk).padded hfront hback
      exact Members.hasText_more hkey ((Node.hasText_of_isWrittenAs v hv).padded hfront' hback')
        (Members.hasText_of_isWrittenAs (.cons l w ms) hms)
termination_by sizeOf members

end

/-! ## Documents -/

/-- A text of a value is read as that value, and nothing follows it. -/
theorem Reading.ofText_of_isPadded (h : n.IsPadded s) : Reading.ofText s = ⟨n, true⟩ := by
  have hformed := h.isFormed
  obtain ⟨_, _, _, _, hfront, hback, h⟩ := h
  have htext := (n.hasText_of_isWrittenAs h).padded hfront hback
  have hspells := htext [] [] stopsAt_nil (.nil [] (by simp))
  rw [List.append_nil, List.append_nil] at hspells
  rw [Reading.ofText, ofText_of_spells hspells, n.read_all_tokens hformed]
  rfl

variable {α : Type} {text : String}

theorem readDocument_of_isDocument (h : IsDocument n text) (read : Node → Result α) :
    readDocument read text = read n := by
  rw [readDocument, Reading.ofText_of_isPadded h]
  cases read n <;> rfl

end Json

end StepTemplate
