import StepTemplate.Proofs.Json.Spelling

namespace StepTemplate

/-!
# What the reader accepts

The reader accepts the texts of the grammar and no others. What it cuts off as a token is a text of
that token, and what it reads of the tokens are the tokens of the tree that it makes.
-/

namespace Json

variable {s rest : List Char} {t : Token} {ts us : List Token} {c : Char}

/-! ## Tokens -/

namespace Token

/-- The texts of a token. -/
inductive IsWrittenAs : Token → List Char → Prop where
  | sign (c : Char) (t : Token) (h : (c, t) ∈ punctuation) : IsWrittenAs t [c]
  | null : IsWrittenAs .null ['n', 'u', 'l', 'l']
  | boolean_true : IsWrittenAs (.boolean true) ['t', 'r', 'u', 'e']
  | boolean_false : IsWrittenAs (.boolean false) ['f', 'a', 'l', 's', 'e']
  | number (n : Numeral) (s : List Char) (h : Numeral.IsWrittenAs n s) : IsWrittenAs (.number n) s
  | text (symbols : List Symbol) (s : List Char) (h : Quoted.IsWrittenAs symbols s) :
      IsWrittenAs (.text ((Quoted.chars? symbols).map String.ofList)) ('"' :: (s ++ ['"']))

theorem IsWrittenAs.length_pos (h : IsWrittenAs t s) : 0 < s.length := by
  cases h with
  | sign c t h | null | boolean_true | boolean_false | text symbols s h => simp
  | number n s h =>
      obtain ⟨c, used, rfl, -⟩ := h.exists_cons
      exact Nat.succ_pos _

theorem exists_of_read? (h : read? c s = some (t, rest)) :
    ∃ used, IsWrittenAs t used ∧ c :: s = used ++ rest := by
  unfold read? at h
  split at h
  · next t' hsign =>
    obtain ⟨rfl, rfl⟩ := Prod.mk.inj (Option.some.inj h)
    obtain ⟨l, l', hl, -⟩ := List.lookup_eq_some_iff.mp hsign
    exact ⟨[c], .sign c t' (hl ▸ by simp), rfl⟩
  · split at h
    · next hquote =>
      obtain ⟨⟨symbols, rest'⟩, hread, h⟩ := Option.map_eq_some_iff.mp h
      obtain ⟨rfl, rfl⟩ := Prod.mk.inj h
      obtain ⟨used, hused, rfl⟩ := Quoted.exists_of_read? hread
      exact ⟨_, .text symbols used hused, by simp [hquote]⟩
    · split at h
      · obtain ⟨⟨n, rest'⟩, hread, h⟩ := Option.map_eq_some_iff.mp h
        obtain ⟨rfl, rfl⟩ := Prod.mk.inj h
        obtain ⟨used, hused, hs⟩ := Numeral.exists_of_read? hread
        exact ⟨used, .number n used hused, hs⟩
      · split at h
        · obtain ⟨rfl, rfl⟩ := Prod.mk.inj (Option.some.inj h)
          exact ⟨_, .null, rfl⟩
        · obtain ⟨rfl, rfl⟩ := Prod.mk.inj (Option.some.inj h)
          exact ⟨_, .boolean_true, rfl⟩
        · obtain ⟨rfl, rfl⟩ := Prod.mk.inj (Option.some.inj h)
          exact ⟨_, .boolean_false, rfl⟩
        · simp at h

/-- The text is cut into the tokens, to its end. -/
def IsCutInto (s : List Char) (ts : List Token) : Prop :=
  ∃ fuel, s.length ≤ fuel ∧ readAll fuel s = ts

theorem isCutInto_ofText (s : List Char) : IsCutInto s (ofText s) :=
  ⟨s.length, le_rfl, rfl⟩

theorem IsCutInto.isBlank (h : IsCutInto s []) : IsBlank s := by
  obtain ⟨fuel, hfuel, h⟩ := h
  cases fuel with
  | zero =>
      rw [List.length_eq_zero_iff.mp (Nat.le_zero.mp hfuel)]
      exact isBlank_nil
  | succ fuel =>
      rw [readAll] at h
      split at h
      · next hblank => exact List.dropWhile_eq_nil_iff.mp hblank
      · split at h <;> simp at h

theorem IsCutInto.exists_cons (h : IsCutInto s (t :: ts)) (ht : t ≠ .broken) :
    ∃ front used rest, IsBlank front ∧ IsWrittenAs t used ∧ IsCutInto rest ts ∧
      s = front ++ (used ++ rest) := by
  obtain ⟨fuel, hfuel, h⟩ := h
  cases fuel with
  | zero => simp [readAll] at h
  | succ fuel =>
      rw [readAll] at h
      split at h
      · simp at h
      · next c s' hdrop =>
        have hs : s.takeWhile isSpace ++ c :: s' = s := by
          rw [← hdrop, List.takeWhile_append_dropWhile]
        split at h
        · next t' rest hread =>
          obtain ⟨rfl, hrest⟩ := List.cons.inj h
          obtain ⟨used, hused, hused'⟩ := exists_of_read? hread
          have hlength := hused.length_pos
          rw [hused'] at hs
          refine ⟨_, used, rest, fun c hc => List.mem_takeWhile_imp hc, hused, ⟨fuel, ?_, hrest⟩,
            hs.symm⟩
          rw [← hs, List.length_append, List.length_append] at hfuel
          omega
        · exact absurd (List.cons.inj h).1.symm ht

theorem IsCutInto.exists_sign (h : IsCutInto s (t :: ts)) (hc : (c, t) ∈ punctuation) :
    ∃ front rest, IsBlank front ∧ IsCutInto rest ts ∧ s = front ++ c :: rest := by
  have ht : t ≠ .broken := by
    rintro rfl
    simp [punctuation] at hc
  have hinj : ∀ e ∈ punctuation, ∀ e' ∈ punctuation, e.2 = e'.2 → e = e' := by decide
  obtain ⟨front, used, rest, hfront, hused, hrest, rfl⟩ := h.exists_cons ht
  cases hused with
  | sign c' t hc' =>
      obtain ⟨rfl, -⟩ := Prod.mk.inj (hinj _ hc' _ hc rfl)
      exact ⟨front, rest, hfront, hrest, rfl⟩
  | null | boolean_true | boolean_false | number n s h | text symbols s h =>
      simp [punctuation] at hc

end Token

/-! ## Tokens of a tree -/

open Token

variable {n v : Node} {items : Items} {members : Members} {key : Option String}

/-- The text starts with a text of the value, and the rest is cut into the tokens. -/
def Node.Leads (n : Node) (s : List Char) (ts : List Token) : Prop :=
  ∃ front used rest, IsBlank front ∧ n.IsWrittenAs used ∧ IsCutInto rest ts ∧
    s = front ++ (used ++ rest)

/-- The text starts with a text of the items, and the rest is cut into the tokens. -/
def Items.Leads (items : Items) (s : List Char) (ts : List Token) : Prop :=
  ∃ used rest, items.IsWrittenAs used ∧ IsCutInto rest ts ∧ s = used ++ rest

/-- The text starts with a text of the members, and the rest is cut into the tokens. -/
def Members.Leads (members : Members) (s : List Char) (ts : List Token) : Prop :=
  ∃ used rest, members.IsWrittenAs used ∧ IsCutInto rest ts ∧ s = used ++ rest

theorem Node.Leads.exists_sign (h : n.Leads s (t :: ts)) (hc : (c, t) ∈ punctuation) :
    ∃ used rest, n.IsPadded used ∧ IsCutInto rest ts ∧ s = used ++ c :: rest := by
  obtain ⟨front, used, rest, hfront, hused, hrest, rfl⟩ := h
  obtain ⟨back, rest', hback, hrest', rfl⟩ := hrest.exists_sign hc
  exact ⟨_, rest', .blanks n front used back hfront hback hused, hrest', by simp⟩

theorem Node.leads_of_exists_cons (ht : t ≠ .broken) (h : IsCutInto s (t :: ts))
    (hn : ∀ used, Token.IsWrittenAs t used → n.IsWrittenAs used) : n.Leads s ts := by
  obtain ⟨front, used, rest, hfront, hused, hrest, rfl⟩ := h.exists_cons ht
  exact ⟨front, used, rest, hfront, hn used hused, hrest, rfl⟩

theorem Node.leads_null (h : IsCutInto s (.null :: ts)) : Node.null.Leads s ts := by
  refine Node.leads_of_exists_cons (by simp) h fun used hused => ?_
  cases hused with
  | sign c t hc => simp [punctuation] at hc
  | null => exact .null

theorem Node.leads_boolean {b : Bool} (h : IsCutInto s (.boolean b :: ts)) :
    (Node.boolean b).Leads s ts := by
  refine Node.leads_of_exists_cons (by simp) h fun used hused => ?_
  cases hused with
  | sign c t hc => simp [punctuation] at hc
  | boolean_true => exact .boolean_true
  | boolean_false => exact .boolean_false

theorem Node.leads_number {m : Numeral} (h : IsCutInto s (.number m :: ts)) :
    (Node.number m).Leads s ts := by
  refine Node.leads_of_exists_cons (by simp) h fun used hused => ?_
  cases hused with
  | sign c t hc => simp [punctuation] at hc
  | number m s hm => exact .number m used hm

theorem Node.leads_text (h : IsCutInto s (.text key :: ts)) : (Node.text key).Leads s ts := by
  refine Node.leads_of_exists_cons (by simp) h fun used hused => ?_
  cases hused with
  | sign c t hc => simp [punctuation] at hc
  | text symbols s hs => exact .text symbols s hs

theorem Items.Leads.array (h : IsCutInto s (.openArray :: us))
    (hitems : ∀ rest, IsCutInto rest us → items.Leads rest ts) : (Node.array items).Leads s ts := by
  obtain ⟨front, rest, hfront, hrest, rfl⟩ := h.exists_sign (c := '[') (by decide)
  obtain ⟨used, rest', hused, hrest', rfl⟩ := hitems rest hrest
  exact ⟨front, _, rest', hfront, .array items used hused, hrest', rfl⟩

theorem Members.Leads.object (h : IsCutInto s (.openObject :: us))
    (hmembers : ∀ rest, IsCutInto rest us → members.Leads rest ts) :
    (Node.object members).Leads s ts := by
  obtain ⟨front, rest, hfront, hrest, rfl⟩ := h.exists_sign (c := '\x7b') (by decide)
  obtain ⟨used, rest', hused, hrest', rfl⟩ := hmembers rest hrest
  exact ⟨front, _, rest', hfront, .object members used hused, hrest', rfl⟩

mutual

/-- A text that is cut into the tokens of a value starts with a text of it. -/
theorem Node.leads_of_isCutInto {s : List Char} {ts : List Token} (n : Node)
    (hn : n.isFormed = true) (h : IsCutInto s (n.tokens ++ ts)) : n.Leads s ts := by
  cases n with
  | broken => exact absurd hn Bool.false_ne_true
  | null => exact Node.leads_null h
  | boolean b => exact Node.leads_boolean h
  | number m => exact Node.leads_number h
  | text key => exact Node.leads_text h
  | array items =>
      exact Items.Leads.array h fun rest hrest => Items.leads_of_isCutInto items hn hrest
  | object members =>
      exact Members.Leads.object h fun rest hrest => Members.leads_of_isCutInto members hn hrest
termination_by sizeOf n

theorem Items.leads_of_isCutInto {s : List Char} {ts : List Token} (items : Items)
    (hitems : items.isFormed = true) (h : IsCutInto s (items.tokens ++ ts)) :
    items.Leads s ts := by
  cases items with
  | cut => exact absurd hitems Bool.false_ne_true
  | closed =>
      obtain ⟨front, rest, hfront, hrest, rfl⟩ := IsCutInto.exists_sign (c := ']') h (by decide)
      exact ⟨_, rest, .closed front hfront, hrest, by simp⟩
  | cons x xs =>
      obtain ⟨hx, hxs⟩ := Bool.and_eq_true_iff.mp hitems
      cases xs with
      | cut => exact absurd hxs Bool.false_ne_true
      | closed =>
          rw [Items.tokens_last, List.append_assoc] at h
          obtain ⟨used, rest, hused, hrest, rfl⟩ :=
            (Node.leads_of_isCutInto x hx h).exists_sign (c := ']') (by decide)
          exact ⟨_, rest, .last x used hused, hrest, by simp⟩
      | cons y ys =>
          rw [Items.tokens_more, List.append_assoc] at h
          obtain ⟨used, rest, hused, hrest, rfl⟩ :=
            (Node.leads_of_isCutInto x hx h).exists_sign (c := ',') (by decide)
          obtain ⟨u, rest', hu, hrest', rfl⟩ := Items.leads_of_isCutInto (.cons y ys) hxs hrest
          exact ⟨_, rest', .more x y ys used u hused hu, hrest', by simp⟩
termination_by sizeOf items

theorem Members.leads_of_isCutInto {s : List Char} {ts : List Token} (members : Members)
    (hmembers : members.isFormed = true) (h : IsCutInto s (members.tokens ++ ts)) :
    members.Leads s ts := by
  cases members with
  | cut => exact absurd hmembers Bool.false_ne_true
  | closed =>
      obtain ⟨front, rest, hfront, hrest, rfl⟩ := IsCutInto.exists_sign (c := '\x7d') h (by decide)
      exact ⟨_, rest, .closed front hfront, hrest, by simp⟩
  | cons k v ms =>
      obtain ⟨key, rfl, hv, hms⟩ := Members.exists_of_isFormed hmembers
      cases ms with
      | cut => exact absurd hms Bool.false_ne_true
      | closed =>
          rw [Members.tokens_last, List.cons_append, List.cons_append, List.append_assoc] at h
          obtain ⟨k, rest, hk, hrest, rfl⟩ := (Node.leads_text h).exists_sign (c := ':') (by decide)
          obtain ⟨used, rest', hused, hrest', rfl⟩ :=
            (Node.leads_of_isCutInto v hv hrest).exists_sign (c := '\x7d') (by decide)
          exact ⟨_, rest', .last key v k used hk hused, hrest', by simp⟩
      | cons l w ms =>
          rw [Members.tokens_more, List.cons_append, List.cons_append, List.append_assoc] at h
          obtain ⟨k, rest, hk, hrest, rfl⟩ := (Node.leads_text h).exists_sign (c := ':') (by decide)
          obtain ⟨used, rest', hused, hrest', rfl⟩ :=
            (Node.leads_of_isCutInto v hv hrest).exists_sign (c := ',') (by decide)
          obtain ⟨u, rest'', hu, hrest'', rfl⟩ :=
            Members.leads_of_isCutInto (.cons l w ms) hms hrest'
          exact ⟨_, rest'', .more key v l w ms k used u hk hused hu, hrest'', by simp⟩
termination_by sizeOf members

end

/-! ## Reading tokens -/

mutual

/-- A value without broken parts is read from its tokens. -/
theorem Node.tokens_of_read {ts us : List Token} {n : Node} (fuel : Nat)
    (h : Node.read fuel ts = (n, us)) (hn : n.isFormed = true) : ts = n.tokens ++ us := by
  cases fuel with
  | zero =>
      obtain ⟨rfl, -⟩ := Prod.mk.inj h
      exact absurd hn Bool.false_ne_true
  | succ fuel =>
      unfold Node.read at h
      split at h
      · next fuel' ts hfuel =>
        obtain rfl := Nat.succ.inj hfuel
        split at h
        · obtain ⟨rfl, rfl⟩ := Prod.mk.inj h
          rfl
        · obtain ⟨rfl, rfl⟩ := Prod.mk.inj h
          obtain ⟨x, xs, hitems, htokens⟩ := Items.tokens_of_read fuel rfl hn
          exact congrArg (Token.openArray :: ·) htokens
      · next fuel' ts hfuel =>
        obtain rfl := Nat.succ.inj hfuel
        split at h
        · obtain ⟨rfl, rfl⟩ := Prod.mk.inj h
          rfl
        · obtain ⟨rfl, rfl⟩ := Prod.mk.inj h
          obtain ⟨k, v, ms, hmembers, htokens⟩ := Members.tokens_of_read fuel rfl hn
          exact congrArg (Token.openObject :: ·) htokens
      · obtain ⟨rfl, rfl⟩ := Prod.mk.inj h
        rfl
      · obtain ⟨rfl, rfl⟩ := Prod.mk.inj h
        rfl
      · obtain ⟨rfl, rfl⟩ := Prod.mk.inj h
        rfl
      · obtain ⟨rfl, rfl⟩ := Prod.mk.inj h
        rfl
      · obtain ⟨rfl, -⟩ := Prod.mk.inj h
        exact absurd hn Bool.false_ne_true

theorem Items.tokens_of_read {ts us : List Token} {items : Items} (fuel : Nat)
    (h : Items.read fuel ts = (items, us)) (hitems : items.isFormed = true) :
    ∃ x xs, items = .cons x xs ∧ ts = items.tokens ++ us := by
  cases fuel with
  | zero =>
      obtain ⟨rfl, -⟩ := Prod.mk.inj h
      exact absurd hitems Bool.false_ne_true
  | succ fuel =>
      cases hx : Node.read fuel ts with
      | mk x rest =>
        rw [Items.read, hx] at h
        dsimp only at h
        split at h
        · next rest =>
          cases hxs : Items.read fuel rest with
          | mk xs us' =>
            rw [hxs] at h
            obtain ⟨rfl, rfl⟩ := Prod.mk.inj h
            obtain ⟨hformed, hformed'⟩ := Bool.and_eq_true_iff.mp hitems
            obtain ⟨y, ys, rfl, hrest⟩ := Items.tokens_of_read fuel hxs hformed'
            refine ⟨x, _, rfl, ?_⟩
            rw [Node.tokens_of_read fuel hx hformed, hrest, Items.tokens_more, List.append_assoc,
              List.cons_append]
        · obtain ⟨rfl, rfl⟩ := Prod.mk.inj h
          refine ⟨x, _, rfl, ?_⟩
          rw [Node.tokens_of_read fuel hx (Bool.and_eq_true_iff.mp hitems).1, Items.tokens_last,
            List.append_assoc, List.singleton_append]
        · obtain ⟨rfl, -⟩ := Prod.mk.inj h
          exact absurd (Bool.and_eq_true_iff.mp hitems).2 Bool.false_ne_true

theorem Members.tokens_of_read {ts us : List Token} {members : Members} (fuel : Nat)
    (h : Members.read fuel ts = (members, us)) (hmembers : members.isFormed = true) :
    ∃ k v ms, members = .cons k v ms ∧ ts = members.tokens ++ us := by
  unfold Members.read at h
  split at h
  · obtain ⟨rfl, -⟩ := Prod.mk.inj h
    exact absurd hmembers Bool.false_ne_true
  · next fuel key ts =>
    cases hv : Node.read fuel ts with
    | mk v rest =>
      rw [hv] at h
      dsimp only at h
      split at h
      · next rest =>
        cases hms : Members.read fuel rest with
        | mk ms us' =>
          rw [hms] at h
          obtain ⟨rfl, rfl⟩ := Prod.mk.inj h
          obtain ⟨hformed, hformed'⟩ := Bool.and_eq_true_iff.mp hmembers
          obtain ⟨l, w, ms, rfl, hrest⟩ := Members.tokens_of_read fuel hms hformed'
          refine ⟨_, v, _, rfl, ?_⟩
          rw [Node.tokens_of_read fuel hv hformed, hrest, Members.tokens_more]
          simp only [List.cons_append, List.append_assoc]
      · obtain ⟨rfl, rfl⟩ := Prod.mk.inj h
        refine ⟨_, v, _, rfl, ?_⟩
        rw [Node.tokens_of_read fuel hv (Bool.and_eq_true_iff.mp hmembers).1, Members.tokens_last]
        simp only [List.cons_append, List.append_assoc, List.nil_append]
      · obtain ⟨rfl, -⟩ := Prod.mk.inj h
        exact absurd (Bool.and_eq_true_iff.mp hmembers).2 Bool.false_ne_true
  · obtain ⟨rfl, -⟩ := Prod.mk.inj h
    obtain ⟨-, -, -, hcut⟩ := Members.exists_of_isFormed hmembers
    exact absurd hcut Bool.false_ne_true

end

/-! ## Documents -/

/-- The reader accepts exactly the texts of the grammar. -/
theorem Reading.ofText_eq_iff :
    Reading.ofText s = ⟨n, true⟩ ∧ n.isFormed = true ↔ n.IsPadded s := by
  refine ⟨fun ⟨h, hn⟩ => ?_, fun h => ⟨Reading.ofText_of_isPadded h, h.isFormed⟩⟩
  rw [Reading.ofText] at h
  cases hread : Node.read (2 * (Token.ofText s).length + 1) (Token.ofText s) with
  | mk root us =>
    rw [hread, Reading.mk.injEq, List.isEmpty_iff] at h
    obtain ⟨rfl, rfl⟩ := h
    have htokens := Node.tokens_of_read _ hread hn
    have hcut : IsCutInto s (root.tokens ++ []) := htokens ▸ isCutInto_ofText s
    obtain ⟨front, used, back, hfront, hused, hback, rfl⟩ := root.leads_of_isCutInto hn hcut
    exact .blanks root front used back hfront hback.isBlank hused

deriving instance DecidableEq for Node, Items, Members

deriving instance DecidableEq for Reading

theorem isDocument_iff {text : String} :
    IsDocument n text ↔ Reading.ofText text.toList = ⟨n, true⟩ ∧ n.isFormed = true :=
  Reading.ofText_eq_iff.symm

end Json

end StepTemplate
