import StepTemplate.Json.Quoted

namespace StepTemplate

/-!
# Quoted texts are read back

Each place of a quoted text is a character as it is or an escape, and the reader takes it for its
symbol whatever follows. So it finds the end of a quoted text and all symbols in front of it.
-/

namespace Json.Quoted

open Text

variable {a : Symbol} {c : Char} {symbols : List Symbol} {s t rest : List Char}

/-- What stands between quotes for the given symbols. -/
inductive IsWrittenAs : List Symbol → List Char → Prop where
  | nil : IsWrittenAs [] []
  | plain (c : Char) (symbols : List Symbol) (s : List Char) (hspace : 0x20 ≤ c.toNat)
      (hquote : c ≠ '"') (hslash : c ≠ '\\') (h : IsWrittenAs symbols s) :
      IsWrittenAs (.char c :: symbols) (c :: s)
  | letter (e : Char × Char) (symbols : List Symbol) (s : List Char) (he : e ∈ letterEscapes)
      (h : IsWrittenAs symbols s) : IsWrittenAs (.char e.2 :: symbols) ('\\' :: e.1 :: s)
  | unit (h₁ h₂ h₃ h₄ : Char) (n : Nat) (symbols : List Symbol) (s : List Char)
      (hn : hexNumber? [h₁, h₂, h₃, h₄] = some n) (h : IsWrittenAs symbols s) :
      IsWrittenAs (symbolOf n :: symbols) ('\\' :: 'u' :: h₁ :: h₂ :: h₃ :: h₄ :: s)

/-! ## Reading one place -/

/-- Reading one more symbol at the head of a text. -/
def Extends (a : Symbol) (s t : List Char) : Prop :=
  read? t = (read? s).map fun r => (a :: r.1, r.2)

theorem extends_letter {e : Char × Char} (he : e ∈ letterEscapes) (s : List Char) :
    Extends (.char e.2) s ('\\' :: e.1 :: s) := by
  simp only [letterEscapes, List.mem_cons, List.not_mem_nil, or_false] at he
  rcases he with rfl | rfl | rfl | rfl | rfl | rfl | rfl | rfl <;>
    cases h : read? s <;> simp [Extends, read?, h, letterEscapes, List.lookup_cons]

theorem extends_unit {h₁ h₂ h₃ h₄ : Char} {n : Nat} (hn : hexNumber? [h₁, h₂, h₃, h₄] = some n)
    (s : List Char) : Extends (symbolOf n) s ('\\' :: 'u' :: h₁ :: h₂ :: h₃ :: h₄ :: s) := by
  cases hs : read? s <;> simp [Extends, read?, hn, hs]

theorem extends_plain (hspace : 0x20 ≤ c.toNat) (hquote : c ≠ '"') (hslash : c ≠ '\\')
    (s : List Char) : Extends (.char c) s (c :: s) := by
  cases hs : read? s <;> simp [Extends, read?, Nat.not_lt.mpr hspace, hslash, hs]

theorem Extends.read?_eq (h : Extends a s t) (hs : read? s = some (symbols, rest)) :
    read? t = some (a :: symbols, rest) := by
  rw [h, hs]
  rfl

/-- Behind its opening quote a quoted text is read up to its closing quote. -/
theorem read?_of_isWrittenAs (h : IsWrittenAs symbols s) (rest : List Char) :
    read? (s ++ '"' :: rest) = some (symbols, rest) := by
  induction h with
  | nil => simp [read?]
  | plain c symbols s hspace hquote hslash _ ih =>
      exact (extends_plain hspace hquote hslash _).read?_eq ih
  | letter e symbols s he _ ih => exact (extends_letter he _).read?_eq ih
  | unit h₁ h₂ h₃ h₄ n symbols s hn _ ih => exact (extends_unit hn _).read?_eq ih

theorem mem_of_lookup {letter c : Char} (h : letterEscapes.lookup letter = some c) :
    (letter, c) ∈ letterEscapes := by
  obtain ⟨l, l', hl, -⟩ := List.lookup_eq_some_iff.mp h
  rw [hl]
  simp

/-- A quoted text is read only up to a closing quote. -/
theorem exists_of_read? {s rest : List Char} {symbols : List Symbol}
    (h : read? s = some (symbols, rest)) :
    ∃ used, IsWrittenAs symbols used ∧ s = used ++ '"' :: rest := by
  induction s using read?.induct generalizing symbols with
  | case1 => simp [read?] at h
  | case2 s =>
      simp only [read?, Option.some.injEq, Prod.mk.injEq] at h
      obtain ⟨rfl, rfl⟩ := h
      exact ⟨[], .nil, rfl⟩
  | case3 h₁ h₂ h₃ h₄ s ih =>
      simp only [read?, Option.bind_eq_bind, Option.bind_eq_some_iff] at h
      obtain ⟨n, hn, ⟨symbols', rest'⟩, hs, h⟩ := h
      obtain ⟨rfl, rfl⟩ := Prod.mk.inj (Option.some.inj h)
      obtain ⟨used, hused, rfl⟩ := ih hs
      exact ⟨_, .unit h₁ h₂ h₃ h₄ n symbols' used hn hused, rfl⟩
  | case4 letter s hu ih =>
      rw [read?.eq_4 letter s hu] at h
      simp only [Option.bind_eq_bind, Option.bind_eq_some_iff] at h
      obtain ⟨c, hc, ⟨symbols', rest'⟩, hs, h⟩ := h
      obtain ⟨rfl, rfl⟩ := Prod.mk.inj (Option.some.inj h)
      obtain ⟨used, hused, rfl⟩ := ih hs
      exact ⟨_, .letter (letter, c) symbols' used (mem_of_lookup hc) hused, rfl⟩
  | case5 c s hquote hunit hletter hc => simp [read?, hc] at h
  | case6 c s hquote hunit hletter hc ih =>
      simp only [read?, hc, Bool.false_eq_true, if_false, Option.bind_eq_bind,
        Option.bind_eq_some_iff] at h
      obtain ⟨⟨symbols', rest'⟩, hs, h⟩ := h
      obtain ⟨rfl, rfl⟩ := Prod.mk.inj (Option.some.inj h)
      obtain ⟨used, hused, rfl⟩ := ih hs
      simp only [Bool.or_eq_true, beq_iff_eq, decide_eq_true_eq, not_or, Nat.not_lt] at hc
      exact ⟨_, .plain c symbols' used hc.2 hquote hc.1 hused, rfl⟩

/-! ## Written characters -/

theorem hexNumber?_control (h : c.toNat < 0x20) :
    hexNumber? ['0', '0', hexDigit (c.toNat / 16), hexDigit (c.toNat % 16)] = some c.toNat := by
  have hhigh := hexValue?_hexDigit (c.toNat / 16) (by omega)
  have hlow := hexValue?_hexDigit (c.toNat % 16) (by omega)
  have hzero : hexValue? '0' = some 0 := rfl
  simp only [hexNumber?, List.foldlM_cons, List.foldlM_nil, hzero, hhigh, hlow]
  have hsum : 16 * (c.toNat / 16) + c.toNat % 16 = c.toNat := Nat.div_add_mod _ _
  simp [hsum]

theorem IsWrittenAs.control (h : IsWrittenAs symbols s) (hc : c.toNat < 0x20) :
    IsWrittenAs (.char c :: symbols)
      ('\\' :: 'u' :: '0' :: '0' :: hexDigit (c.toNat / 16) :: hexDigit (c.toNat % 16) :: s) := by
  have hsymbol : symbolOf c.toNat = .char c := by
    rw [symbolOf, if_neg (by omega), Char.ofNat_toNat]
  rw [← hsymbol]
  exact .unit _ _ _ _ _ _ _ (hexNumber?_control hc) h

theorem IsWrittenAs.escape (h : IsWrittenAs symbols s) (c : Char) :
    IsWrittenAs (.char c :: symbols) (escape c ++ s) := by
  rw [Quoted.escape]
  split
  · next e he =>
    have hfound := List.find?_some he
    simp only [Bool.and_eq_true, beq_iff_eq] at hfound
    obtain ⟨rfl, -⟩ := hfound
    exact .letter e symbols s (List.mem_of_find?_eq_some he) h
  · next hnone =>
    split
    · next hcontrol => exact h.control hcontrol
    · next hspace =>
      -- The quote and the backslash have escapes of their own.
      refine .plain c symbols s (Nat.not_lt.mp hspace) ?_ ?_ h
      · rintro rfl
        exact absurd hnone (by decide)
      · rintro rfl
        exact absurd hnone (by decide)

theorem isWrittenAs_flatMap_escape (s : List Char) :
    IsWrittenAs (s.map .char) (s.flatMap escape) := by
  induction s with
  | nil => exact .nil
  | cons c s ih =>
      rw [List.map_cons, List.flatMap_cons]
      exact ih.escape c

theorem chars?_char (s : List Char) : chars? (s.map .char) = some s := by
  induction s with
  | nil => rfl
  | cons c s ih => simp [chars?, ih]

end Json.Quoted

end StepTemplate
