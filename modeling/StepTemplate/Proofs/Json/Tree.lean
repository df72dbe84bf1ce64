import StepTemplate.Json.Node

namespace StepTemplate

/-!
# The tokens of a tree

A tree without broken parts is the one that is read from its own tokens.
-/

namespace Json

variable {t : Token} {ts us vs : List Token} {fuel : Nat} {n x k v : Node} {xs items : Items}
  {ms members : Members} {key : Option String}

/-- Whether a value is a text with all its characters. -/
def Node.isText : Node → Bool
  | .text (some _) => true
  | _ => false

mutual

/-- Whether a value can be written: no part of it is broken, and all its texts are whole. -/
def Node.isPlain : Node → Bool
  | .text none => false
  | .broken => false
  | .array items => items.isPlain
  | .object members => members.isPlain
  | _ => true

def Items.isPlain : Items → Bool
  | .closed => true
  | .cut => false
  | .cons x xs => x.isPlain && xs.isPlain

def Members.isPlain : Members → Bool
  | .closed => true
  | .cut => false
  | .cons k v ms => k.isText && v.isPlain && ms.isPlain

end

mutual

/-- Whether a value has a text: no part of it is broken, and its keys are texts. A text may keep
half of a surrogate pair. -/
def Node.isFormed : Node → Bool
  | .broken => false
  | .array items => items.isFormed
  | .object members => members.isFormed
  | _ => true

def Items.isFormed : Items → Bool
  | .closed => true
  | .cut => false
  | .cons x xs => x.isFormed && xs.isFormed

def Members.isFormed : Members → Bool
  | .closed => true
  | .cons (.text _) v ms => v.isFormed && ms.isFormed
  | _ => false

end

theorem Node.exists_of_isText (h : n.isText = true) : ∃ u, n = .text (some u) := by
  unfold Node.isText at h
  split at h
  · exact ⟨_, rfl⟩
  · simp at h

theorem Members.exists_of_isFormed {k : Node} (h : (Members.cons k v ms).isFormed = true) :
    ∃ key, k = .text key ∧ v.isFormed = true ∧ ms.isFormed = true := by
  cases k with
  | text key => exact ⟨key, rfl, Bool.and_eq_true_iff.mp h⟩
  | _ => exact absurd h Bool.false_ne_true

mutual

/-- What has a text is well-formed, so it can be skipped. -/
theorem Node.isWhole_of_isFormed (n : Node) (h : n.isFormed = true) : n.isWhole = true := by
  cases n with
  | null | boolean b | number n | text s => rfl
  | array items => exact Items.isWhole_of_isFormed items h
  | object members => exact Members.isWhole_of_isFormed members h
  | broken => exact h
termination_by sizeOf n

theorem Items.isWhole_of_isFormed (items : Items) (h : items.isFormed = true) :
    items.isWhole = true := by
  cases items with
  | closed => rfl
  | cut => exact h
  | cons x xs =>
      obtain ⟨hx, hxs⟩ := Bool.and_eq_true_iff.mp h
      exact Bool.and_eq_true_iff.mpr
        ⟨Node.isWhole_of_isFormed x hx, Items.isWhole_of_isFormed xs hxs⟩
termination_by sizeOf items

theorem Members.isWhole_of_isFormed (members : Members) (h : members.isFormed = true) :
    members.isWhole = true := by
  cases members with
  | closed => rfl
  | cut => exact h
  | cons k v ms =>
      obtain ⟨key, rfl, hv, hms⟩ := Members.exists_of_isFormed h
      exact Bool.and_eq_true_iff.mpr
        ⟨Node.isWhole_of_isFormed v hv, Members.isWhole_of_isFormed ms hms⟩
termination_by sizeOf members

end

mutual

def Node.tokens : Node → List Token
  | .null => [.null]
  | .boolean b => [.boolean b]
  | .number n => [.number n]
  | .text s => [.text s]
  | .array items => .openArray :: items.tokens
  | .object members => .openObject :: members.tokens
  | .broken => []

def Items.tokens : Items → List Token
  | .closed => [.closeArray]
  | .cut => []
  | .cons x .closed => x.tokens ++ [.closeArray]
  | .cons x xs => x.tokens ++ .comma :: xs.tokens

def Members.tokens : Members → List Token
  | .closed => [.closeObject]
  | .cut => []
  | .cons k v .closed => k.tokens ++ .colon :: (v.tokens ++ [.closeObject])
  | .cons k v ms => k.tokens ++ .colon :: (v.tokens ++ .comma :: ms.tokens)

end

theorem Items.tokens_last (x : Node) :
    (Items.cons x .closed).tokens = x.tokens ++ [.closeArray] := rfl

theorem Items.tokens_more (x y : Node) (ys : Items) :
    (Items.cons x (.cons y ys)).tokens = x.tokens ++ .comma :: (Items.cons y ys).tokens := rfl

theorem Members.tokens_last (key : Option String) (v : Node) :
    (Members.cons (.text key) v .closed).tokens =
      .text key :: .colon :: (v.tokens ++ [.closeObject]) := rfl

theorem Members.tokens_more (key : Option String) (v l w : Node) (ms : Members) :
    (Members.cons (.text key) v (.cons l w ms)).tokens =
      .text key :: .colon :: (v.tokens ++ .comma :: (Members.cons l w ms).tokens) := rfl

/-! ## Reading the tokens of a tree -/

/-- What is read of a list starts with a value, so its first token closes nothing. -/
theorem Node.exists_tokens_cons (h : n.isFormed = true) :
    ∃ t ts, n.tokens = t :: ts ∧ t ≠ .closeArray := by
  cases n with
  | broken => simp [Node.isFormed] at h
  | null => exact ⟨_, _, rfl, by simp⟩
  | boolean b => exact ⟨_, _, rfl, by simp⟩
  | number n => exact ⟨_, _, rfl, by simp⟩
  | text s => exact ⟨_, _, rfl, by simp⟩
  | array items => exact ⟨_, _, rfl, by simp⟩
  | object members => exact ⟨_, _, rfl, by simp⟩

theorem Node.length_tokens_pos (h : n.isFormed = true) : 0 < n.tokens.length := by
  obtain ⟨t, ts, hts, -⟩ := Node.exists_tokens_cons h
  rw [hts]
  exact Nat.succ_pos _

theorem Node.read_array (ht : t ≠ .closeArray) (h : Items.read fuel (t :: ts) = (items, us)) :
    Node.read (fuel + 1) (.openArray :: t :: ts) = (.array items, us) := by
  have hread : Node.read (fuel + 1) (.openArray :: t :: ts) =
      (.array (Items.read fuel (t :: ts)).1, (Items.read fuel (t :: ts)).2) := by
    cases t <;> first | rfl | exact absurd rfl ht
  rw [hread, h]

theorem Node.read_object (h : Members.read fuel (.text key :: ts) = (members, us)) :
    Node.read (fuel + 1) (.openObject :: .text key :: ts) = (.object members, us) := by
  have hread : Node.read (fuel + 1) (.openObject :: .text key :: ts) =
      (.object (Members.read fuel (.text key :: ts)).1,
        (Members.read fuel (.text key :: ts)).2) := rfl
  rw [hread, h]

theorem Items.read_last (hx : Node.read fuel ts = (x, .closeArray :: us)) :
    Items.read (fuel + 1) ts = (.cons x .closed, us) := by
  rw [Items.read, hx]

theorem Items.read_more (hx : Node.read fuel ts = (x, .comma :: us))
    (hxs : Items.read fuel us = (xs, vs)) : Items.read (fuel + 1) ts = (.cons x xs, vs) := by
  rw [Items.read, hx]
  dsimp only
  rw [hxs]

theorem Members.read_last (hv : Node.read fuel ts = (v, .closeObject :: us)) :
    Members.read (fuel + 1) (.text key :: .colon :: ts) = (.cons (.text key) v .closed, us) := by
  rw [Members.read, hv]

theorem Members.read_more (hv : Node.read fuel ts = (v, .comma :: us))
    (hms : Members.read fuel us = (ms, vs)) :
    Members.read (fuel + 1) (.text key :: .colon :: ts) = (.cons (.text key) v ms, vs) := by
  rw [Members.read, hv]
  dsimp only
  rw [hms]

theorem Items.exists_tokens_cons (h : x.isFormed = true) (xs : Items) :
    ∃ t ts, (Items.cons x xs).tokens = t :: ts ∧ t ≠ .closeArray := by
  obtain ⟨t, ts, hts, ht⟩ := Node.exists_tokens_cons h
  cases xs <;> exact ⟨t, ts ++ _, congrArg (· ++ _) hts, ht⟩

theorem Members.exists_tokens_cons (key : Option String) (v : Node) (ms : Members) :
    ∃ ts, (Members.cons (.text key) v ms).tokens = .text key :: ts := by
  cases ms <;> exact ⟨_, rfl⟩

mutual

/-- The tokens of a value are read back as the value. Each step down the tree takes up a token, so
there is fuel for all of them. -/
theorem Node.read_tokens (n : Node) (fuel : Nat) (hn : n.isFormed = true)
    (hfuel : n.tokens.length ≤ fuel) (ts : List Token) :
    Node.read fuel (n.tokens ++ ts) = (n, ts) := by
  have hpos := Node.length_tokens_pos hn
  obtain ⟨fuel, rfl⟩ : ∃ k, fuel = k + 1 := ⟨fuel - 1, by omega⟩
  cases n with
  | null => rfl
  | boolean b => rfl
  | number n => rfl
  | text s => rfl
  | broken => simp [Node.isFormed] at hn
  | array items =>
      rw [Node.tokens, List.length_cons] at hfuel
      rw [Node.tokens, List.cons_append]
      cases items with
      | closed => rfl
      | cut => simp [Node.isFormed, Items.isFormed] at hn
      | cons x xs =>
          obtain ⟨t, us, hus, ht⟩ := Items.exists_tokens_cons (Bool.and_eq_true_iff.mp hn).1 xs
          have hread := Items.read_tokens x xs fuel hn (by omega) ts
          rw [hus] at hread ⊢
          exact Node.read_array ht hread
  | object members =>
      rw [Node.tokens, List.length_cons] at hfuel
      rw [Node.tokens, List.cons_append]
      cases members with
      | closed => rfl
      | cut => simp [Node.isFormed, Members.isFormed] at hn
      | cons k v ms =>
          have hread := Members.read_tokens k v ms fuel hn (by omega) ts
          obtain ⟨key, rfl, -, -⟩ := Members.exists_of_isFormed hn
          obtain ⟨us, hus⟩ := Members.exists_tokens_cons key v ms
          rw [hus] at hread ⊢
          exact Node.read_object hread
termination_by sizeOf n

theorem Items.read_tokens (x : Node) (xs : Items) (fuel : Nat)
    (h : (Items.cons x xs).isFormed = true) (hfuel : (Items.cons x xs).tokens.length ≤ fuel)
    (ts : List Token) : Items.read fuel ((Items.cons x xs).tokens ++ ts) = (.cons x xs, ts) := by
  obtain ⟨hx, hxs⟩ := Bool.and_eq_true_iff.mp h
  cases xs with
  | cut => simp [Items.isFormed] at hxs
  | closed =>
      rw [Items.tokens_last, List.length_append, List.length_singleton] at hfuel
      obtain ⟨fuel, rfl⟩ : ∃ k, fuel = k + 1 := ⟨fuel - 1, by omega⟩
      rw [Items.tokens_last, List.append_assoc]
      exact Items.read_last (Node.read_tokens x fuel hx (by omega) _)
  | cons y ys =>
      rw [Items.tokens_more, List.length_append, List.length_cons] at hfuel
      obtain ⟨fuel, rfl⟩ : ∃ k, fuel = k + 1 := ⟨fuel - 1, by omega⟩
      rw [Items.tokens_more, List.append_assoc]
      exact Items.read_more (Node.read_tokens x fuel hx (by omega) _)
        (Items.read_tokens y ys fuel hxs (by omega) ts)
termination_by sizeOf (Items.cons x xs)

theorem Members.read_tokens (k v : Node) (ms : Members) (fuel : Nat)
    (h : (Members.cons k v ms).isFormed = true)
    (hfuel : (Members.cons k v ms).tokens.length ≤ fuel) (ts : List Token) :
    Members.read fuel ((Members.cons k v ms).tokens ++ ts) = (.cons k v ms, ts) := by
  obtain ⟨key, rfl, hv, hms⟩ := Members.exists_of_isFormed h
  cases ms with
  | cut => simp [Members.isFormed] at hms
  | closed =>
      rw [Members.tokens_last] at hfuel ⊢
      simp only [List.length_cons, List.length_append, List.length_nil] at hfuel
      obtain ⟨fuel, rfl⟩ : ∃ k, fuel = k + 1 := ⟨fuel - 1, by omega⟩
      rw [List.cons_append, List.cons_append, List.append_assoc]
      exact Members.read_last (Node.read_tokens v fuel hv (by omega) _)
  | cons l w ms =>
      rw [Members.tokens_more] at hfuel ⊢
      simp only [List.length_cons, List.length_append] at hfuel
      obtain ⟨fuel, rfl⟩ : ∃ k, fuel = k + 1 := ⟨fuel - 1, by omega⟩
      rw [List.cons_append, List.cons_append, List.append_assoc]
      exact Members.read_more (Node.read_tokens v fuel hv (by omega) _)
        (Members.read_tokens l w ms fuel hms (by omega) ts)
termination_by sizeOf (Members.cons k v ms)

end

/-- A text with the tokens of a tree is read as that tree, and nothing is left of it. -/
theorem Node.read_all_tokens (n : Node) (hn : n.isFormed = true) :
    Node.read (2 * n.tokens.length + 1) n.tokens = (n, []) := by
  have hread := n.read_tokens (2 * n.tokens.length + 1) hn (by omega) []
  rwa [List.append_nil] at hread

end Json

end StepTemplate
