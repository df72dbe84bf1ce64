import StepTemplate.Json.Numeral
import StepTemplate.Proofs.Text.Stretch

namespace StepTemplate

/-!
# Numbers are read back

A written number ends where no character follows that could go on with it. The whole part has no
leading zero, so the reader takes it as it is.
-/

namespace Json.Numeral

open Text

variable {n : Numeral} {s rest : List Char} {ds : List (Fin 10)} {e : Option Int}

/-- The characters that could go on with a number. -/
def isTail (c : Char) : Bool :=
  c.isDigit || c == '.' || c == 'e' || c == 'E'

/-! ## Digits -/

theorem stopsAt_isDigit (h : StopsAt isTail rest) : StopsAt Char.isDigit rest := by
  intro c hc
  have htail := h c hc
  simp only [isTail, Bool.or_eq_false_iff] at htail
  exact htail.1.1.1

theorem readDigits_append (hs : ∀ c ∈ s, c.isDigit = true) (hrest : StopsAt Char.isDigit rest) :
    readDigits (s ++ rest) = (s.map digitValue, rest) := by
  rw [readDigits, takeWhile_append_of_stops hs hrest, dropWhile_append_of_stops hs hrest]

theorem isDigit_digitChar (d : Fin 10) : (digitChar d).isDigit = true := by
  decide +revert

theorem digitValue_digitChar (d : Fin 10) : digitValue (digitChar d) = d := by
  decide +revert

theorem val_digitValue {c : Char} (h : c.isDigit = true) :
    (digitValue c).val = c.toNat - '0'.toNat := by
  simp only [Char.isDigit, Bool.and_eq_true, decide_eq_true_eq] at h
  have hlt : c.toNat - 48 < 10 := by
    have hle : c.toNat ≤ 57 := h.2
    omega
  exact Nat.mod_eq_of_lt hlt

theorem ofDigits_digitValue (hs : ∀ c ∈ s, c.isDigit = true) :
    ofDigits (s.map digitValue) = Nat.ofDigitChars 10 s 0 := by
  rw [ofDigits]
  generalize 0 = start
  induction s generalizing start with
  | nil => rfl
  | cons c s ih =>
      obtain ⟨hc, hs⟩ := List.forall_mem_cons.mp hs
      rw [List.map_cons, List.foldl_cons, ih hs, val_digitValue hc, Nat.ofDigitChars_cons]

theorem eq_zero_of_digitValue {c : Char} (hc : c.isDigit = true) (h : digitValue c = 0) :
    c = '0' := by
  have hval := val_digitValue hc
  rw [h] at hval
  simp only [Char.isDigit, Bool.and_eq_true, decide_eq_true_eq] at hc
  have hle : 48 ≤ c.toNat := hc.1
  apply Char.toNat_inj.mp
  change 0 = c.toNat - 48 at hval
  change c.toNat = 48
  omega

theorem ne_minus_of_isDigit {c : Char} (hc : c.isDigit = true) : c ≠ '-' := by
  rintro rfl
  exact absurd hc (by decide)

theorem ne_plus_of_isDigit {c : Char} (hc : c.isDigit = true) : c ≠ '+' := by
  rintro rfl
  exact absurd hc (by decide)

/-! ## The grammar of numbers -/

/-- One or more digits. -/
def IsDigits (s : List Char) : Prop :=
  s ≠ [] ∧ ∀ c ∈ s, c.isDigit = true

/-- A point with digits, or nothing. -/
inductive IsFraction : List (Fin 10) → List Char → Prop where
  | none : IsFraction [] []
  | digits (s : List Char) (hs : IsDigits s) : IsFraction (s.map digitValue) ('.' :: s)

/-- A power of ten with or without a sign, or nothing. -/
inductive IsExponent : Option Int → List Char → Prop where
  | none : IsExponent none []
  | unsigned (letter : Char) (s : List Char) (hletter : letter = 'e' ∨ letter = 'E')
      (hs : IsDigits s) : IsExponent (some (Nat.ofDigitChars 10 s 0)) (letter :: s)
  | plus (letter : Char) (s : List Char) (hletter : letter = 'e' ∨ letter = 'E')
      (hs : IsDigits s) : IsExponent (some (Nat.ofDigitChars 10 s 0)) (letter :: '+' :: s)
  | minus (letter : Char) (s : List Char) (hletter : letter = 'e' ∨ letter = 'E')
      (hs : IsDigits s) : IsExponent (some (-Nat.ofDigitChars 10 s 0)) (letter :: '-' :: s)

/-- The texts of a number. A whole part of several digits does not start with a zero. -/
inductive IsWrittenAs : Numeral → List Char → Prop where
  | parts (negative : Bool) (whole : List Char) (ds : List (Fin 10)) (fraction : List Char)
      (e : Option Int) (exponent : List Char) (hwhole : IsDigits whole)
      (hzero : whole.head? = some '0' → whole = ['0']) (hfraction : IsFraction ds fraction)
      (hexponent : IsExponent e exponent) :
      IsWrittenAs ⟨negative, Nat.ofDigitChars 10 whole 0, ds, e⟩
        ((if negative then ['-'] else []) ++ (whole ++ (fraction ++ exponent)))

theorem IsDigits.exists_cons (hs : IsDigits s) : ∃ c cs, s = c :: cs ∧ c.isDigit = true := by
  obtain ⟨c, cs, rfl⟩ := List.exists_cons_of_ne_nil hs.1
  exact ⟨c, cs, rfl, hs.2 c List.mem_cons_self⟩

theorem IsWrittenAs.exists_cons (h : IsWrittenAs n s) :
    ∃ c used, s = c :: used ∧ (c = '-' ∨ c.isDigit = true) := by
  obtain ⟨negative, whole, ds, fraction, e, exponent, hwhole, -, -, -⟩ := h
  cases negative with
  | true => exact ⟨'-', _, rfl, Or.inl rfl⟩
  | false =>
      obtain ⟨c, cs, rfl, hc⟩ := hwhole.exists_cons
      exact ⟨c, _, rfl, Or.inr hc⟩

/-! ## Reading numbers -/

theorem readFraction?_of_isFraction (hs : IsFraction ds s) (hrest : StopsAt Char.isDigit rest)
    (hpoint : rest.head? ≠ some '.') : readFraction? (s ++ rest) = some (ds, rest) := by
  cases hs with
  | none =>
      cases rest with
      | nil => rfl
      | cons c rest =>
          have hc : c ≠ '.' := by
            rintro rfl
            exact hpoint rfl
          simp [readFraction?, hc]
  | digits s hs =>
      obtain ⟨c, cs, rfl, -⟩ := hs.exists_cons
      rw [List.cons_append, readFraction?, readDigits_append hs.2 hrest, List.map_cons]

theorem readPower?_of_isDigits (hs : IsDigits s) (hrest : StopsAt Char.isDigit rest)
    (negative : Bool) : readPower? negative (s ++ rest) =
      some (some (if negative then -(Nat.ofDigitChars 10 s 0 : Int) else Nat.ofDigitChars 10 s 0),
        rest) := by
  rw [readPower?, readDigits_append hs.2 hrest]
  split
  · next hnil => exact absurd (List.map_eq_nil_iff.mp (congrArg Prod.fst hnil)) hs.1
  · next ds rest' _ heq =>
    obtain ⟨rfl, rfl⟩ := Prod.mk.inj heq
    rw [ofDigits_digitValue hs.2]

theorem readExponent?_of_isExponent (hs : IsExponent e s)
    (hrest : StopsAt isTail rest) : readExponent? (s ++ rest) = some (e, rest) := by
  have hstop := stopsAt_isDigit hrest
  cases hs with
  | none =>
      cases rest with
      | nil => rfl
      | cons c rest =>
          have hc := hrest c rfl
          simp only [isTail, Bool.or_eq_false_iff, beq_eq_false_iff_ne] at hc
          simp [readExponent?, hc.1.2, hc.2]
  | unsigned letter s hletter hs =>
      have hpower := readPower?_of_isDigits hs hstop false
      obtain ⟨c, cs, rfl, hc⟩ := hs.exists_cons
      -- a plus or a minus would be read as the sign of the exponent
      have hplus := ne_plus_of_isDigit hc
      have hminus := ne_minus_of_isDigit hc
      simp only [List.cons_append] at hpower ⊢
      simp [readExponent?, hletter, hplus, hminus, hpower]
  | plus letter s hletter hs =>
      have hpower := readPower?_of_isDigits hs hstop false
      simp [readExponent?, hletter, hpower]
  | minus letter s hletter hs =>
      have hpower := readPower?_of_isDigits hs hstop true
      simp [readExponent?, hletter, hpower]

theorem IsExponent.append_stopsAt (hs : IsExponent e s)
    (hrest : StopsAt isTail rest) :
    StopsAt Char.isDigit (s ++ rest) ∧ (s ++ rest).head? ≠ some '.' := by
  have hletters : ∀ letter : Char, letter = 'e' ∨ letter = 'E' →
      letter.isDigit = false ∧ letter ≠ '.' := by
    rintro letter (rfl | rfl) <;> decide
  cases hs with
  | none =>
      refine ⟨stopsAt_isDigit hrest, fun h => ?_⟩
      exact absurd (hrest '.' h) (by decide)
  | unsigned letter s hletter | plus letter s hletter | minus letter s hletter =>
      obtain ⟨hdigit, hpoint⟩ := hletters letter hletter
      exact ⟨stopsAt_cons.mpr hdigit, by simpa using hpoint⟩

theorem IsFraction.append_stopsAt (hs : IsFraction ds s) (hrest : StopsAt Char.isDigit rest) :
    StopsAt Char.isDigit (s ++ rest) := by
  cases hs with
  | none => exact hrest
  | digits s hs => exact stopsAt_cons.mpr rfl

theorem readUnsigned?_parts {whole fraction exponent : List Char}
    (hrest : StopsAt isTail rest) (hwhole : IsDigits whole)
    (hzero : whole.head? = some '0' → whole = ['0']) (hfraction : IsFraction ds fraction)
    (hexponent : IsExponent e exponent) (negative : Bool) :
    readUnsigned? negative (whole ++ (fraction ++ (exponent ++ rest))) =
      some (⟨negative, Nat.ofDigitChars 10 whole 0, ds, e⟩, rest) := by
  obtain ⟨hstop, hpoint⟩ := hexponent.append_stopsAt hrest
  have hne : whole.map digitValue ≠ [] := fun h => hwhole.1 (List.map_eq_nil_iff.mp h)
  have hleading :
      ¬ ((whole.map digitValue).head? = some 0 ∧ 1 < (whole.map digitValue).length) := by
    rintro ⟨hhead, hlength⟩
    obtain ⟨c, cs, rfl, hc⟩ := hwhole.exists_cons
    obtain rfl := eq_zero_of_digitValue hc (Option.some.inj hhead)
    rw [hzero rfl] at hlength
    exact absurd hlength (by decide)
  simp only [readUnsigned?, readDigits_append hwhole.2 (hfraction.append_stopsAt hstop)]
  rw [if_neg (not_or.mpr ⟨hne, hleading⟩), readFraction?_of_isFraction hfraction hstop hpoint,
    Option.bind_eq_bind, Option.bind_some, readExponent?_of_isExponent hexponent hrest,
    Option.bind_eq_bind, Option.bind_some, ofDigits_digitValue hwhole.2]
  rfl

/-- A number is read up to its end. -/
theorem read?_of_isWrittenAs (hrest : StopsAt isTail rest) (h : IsWrittenAs n s) :
    read? (s ++ rest) = some (n, rest) := by
  obtain ⟨negative, whole, ds, fraction, e, exponent, hwhole, hzero, hfraction, hexponent⟩ := h
  have hunsigned := readUnsigned?_parts hrest hwhole hzero hfraction hexponent negative
  simp only [List.append_assoc]
  cases negative with
  | true => exact hunsigned
  | false =>
      obtain ⟨c, cs, rfl, hc⟩ := hwhole.exists_cons
      rw [if_neg Bool.false_ne_true, List.nil_append, read?]
      · exact hunsigned
      · rintro s ⟨⟩
        exact ne_minus_of_isDigit hc rfl

/-! ## What is read as a number -/

theorem exists_of_readDigits (h : readDigits s = (ds, rest)) :
    ∃ used, (∀ c ∈ used, c.isDigit = true) ∧ used.map digitValue = ds ∧ s = used ++ rest := by
  obtain ⟨hds, hrest⟩ := Prod.mk.inj h
  refine ⟨s.takeWhile Char.isDigit, fun c hc => List.mem_takeWhile_imp hc, hds, ?_⟩
  rw [← hrest, List.takeWhile_append_dropWhile]

theorem exists_of_readDigits_cons {d : Fin 10} (h : readDigits s = (d :: ds, rest)) :
    ∃ used, IsDigits used ∧ used.map digitValue = d :: ds ∧ s = used ++ rest := by
  obtain ⟨used, hused, hds, rfl⟩ := exists_of_readDigits h
  exact ⟨used, ⟨fun hnil => by simp [hnil] at hds, hused⟩, hds, rfl⟩

theorem exists_of_readFraction? (h : readFraction? s = some (ds, rest)) :
    ∃ used, IsFraction ds used ∧ s = used ++ rest := by
  unfold readFraction? at h
  split at h
  · next s =>
    split at h
    · simp at h
    · next ds' rest' hne hdigits =>
      obtain ⟨rfl, rfl⟩ := Prod.mk.inj (Option.some.inj h)
      cases ds' with
      | nil => exact (hne rfl).elim
      | cons d ds =>
          obtain ⟨used, hused, hds, rfl⟩ := exists_of_readDigits_cons hdigits
          rw [← hds]
          exact ⟨_, .digits used hused, rfl⟩
  · obtain ⟨rfl, rfl⟩ := Prod.mk.inj (Option.some.inj h)
    exact ⟨[], .none, rfl⟩

theorem exists_of_readPower? {negative : Bool} (h : readPower? negative s = some (e, rest)) :
    ∃ used, IsDigits used ∧ s = used ++ rest ∧
      e = some (if negative then -(Nat.ofDigitChars 10 used 0 : Int)
        else Nat.ofDigitChars 10 used 0) := by
  unfold readPower? at h
  split at h
  · simp at h
  · next ds rest' hne hdigits =>
    obtain ⟨rfl, rfl⟩ := Prod.mk.inj (Option.some.inj h)
    cases ds with
    | nil => exact (hne rfl).elim
    | cons d ds =>
        obtain ⟨used, hused, hds, rfl⟩ := exists_of_readDigits_cons hdigits
        exact ⟨used, hused, rfl, by rw [← hds, ofDigits_digitValue hused.2]⟩

theorem exists_of_readExponent? (h : readExponent? s = some (e, rest)) :
    ∃ used, IsExponent e used ∧ s = used ++ rest := by
  unfold readExponent? at h
  split at h
  · next c s =>
    split at h
    · next hletter =>
      split at h
      · obtain ⟨used, hused, rfl, rfl⟩ := exists_of_readPower? h
        exact ⟨_, .plus c used hletter hused, rfl⟩
      · obtain ⟨used, hused, rfl, rfl⟩ := exists_of_readPower? h
        exact ⟨_, .minus c used hletter hused, rfl⟩
      · obtain ⟨used, hused, rfl, rfl⟩ := exists_of_readPower? h
        exact ⟨_, .unsigned c used hletter hused, rfl⟩
    · obtain ⟨rfl, rfl⟩ := Prod.mk.inj (Option.some.inj h)
      exact ⟨[], .none, rfl⟩
  · obtain ⟨rfl, rfl⟩ := Prod.mk.inj (Option.some.inj h)
    exact ⟨[], .none, rfl⟩

theorem eq_zero_of_head? (hhead : s.head? = some '0')
    (hzero : ¬ ((s.map digitValue).head? = some 0 ∧ 1 < (s.map digitValue).length)) :
    s = ['0'] := by
  obtain ⟨s, rfl⟩ := List.head?_eq_some_iff.mp hhead
  cases s with
  | nil => rfl
  | cons c s => exact absurd ⟨rfl, by simp⟩ hzero

theorem exists_of_readUnsigned? {negative : Bool} (h : readUnsigned? negative s = some (n, rest)) :
    ∃ used, IsWrittenAs n ((if negative then ['-'] else []) ++ used) ∧ s = used ++ rest := by
  simp only [readUnsigned?, Option.bind_eq_bind] at h
  cases hdigits : readDigits s with
  | mk ds s₁ =>
    obtain ⟨whole, hwhole, rfl, rfl⟩ := exists_of_readDigits hdigits
    rw [hdigits] at h
    dsimp only at h
    split at h
    · simp at h
    · next hparts =>
      obtain ⟨hne, hzero⟩ := not_or.mp hparts
      simp only [Option.bind_eq_some_iff] at h
      obtain ⟨⟨fraction, s₂⟩, hfraction, ⟨e, s₃⟩, hexponent, h⟩ := h
      obtain ⟨rfl, rfl⟩ := Prod.mk.inj (Option.some.inj h)
      obtain ⟨f, hf, rfl⟩ := exists_of_readFraction? hfraction
      obtain ⟨u, hu, rfl⟩ := exists_of_readExponent? hexponent
      have hmap : whole ≠ [] := fun hnil => hne (by rw [hnil, List.map_nil])
      rw [ofDigits_digitValue hwhole]
      refine ⟨whole ++ (f ++ u), ?_, by simp⟩
      exact .parts negative whole fraction f e u ⟨hmap, hwhole⟩
        (fun hhead => eq_zero_of_head? hhead hzero) hf hu

/-- What is read as a number is a text of it. -/
theorem exists_of_read? (h : read? s = some (n, rest)) :
    ∃ used, IsWrittenAs n used ∧ s = used ++ rest := by
  unfold read? at h
  split at h
  · obtain ⟨used, hused, rfl⟩ := exists_of_readUnsigned? h
    exact ⟨_, hused, rfl⟩
  · obtain ⟨used, hused, rfl⟩ := exists_of_readUnsigned? h
    exact ⟨_, hused, rfl⟩

/-! ## Written numbers -/

theorem isDigits_toDigits (m : Nat) : IsDigits (Nat.toDigits 10 m) :=
  ⟨Nat.toDigits_ne_nil, fun _ hc => Nat.isDigit_of_mem_toDigits (by decide) (by decide) hc⟩

theorem natDigit_ne_zero {m : Nat} (h : m < 10) (hpos : 0 < m) : Nat.digitChar m ≠ '0' := by
  decide +revert

theorem head?_toDigits {m : Nat} (h : 0 < m) : (Nat.toDigits 10 m).head? ≠ some '0' := by
  induction m using Nat.strong_induction_on with
  | _ m ih =>
    by_cases hm : m < 10
    · rw [Nat.toDigits_of_lt_base hm, List.head?_cons, Ne, Option.some.injEq]
      exact natDigit_ne_zero hm h
    · have hhead := ih (m / 10) (by omega) (by omega)
      obtain ⟨c, cs, hcs, -⟩ := (isDigits_toDigits (m / 10)).exists_cons
      rw [Nat.toDigits_of_base_le (by decide) (by omega)]
      rw [hcs] at hhead ⊢
      exact hhead

/-- The number zero is the only one whose digits start with a zero, and it has one digit. -/
theorem toDigits_of_head? {m : Nat} (h : (Nat.toDigits 10 m).head? = some '0') :
    Nat.toDigits 10 m = ['0'] := by
  rcases Nat.eq_zero_or_pos m with rfl | hm
  · rfl
  · exact absurd h (head?_toDigits hm)

theorem isFraction_write (ds : List (Fin 10)) :
    IsFraction ds (if ds = [] then [] else '.' :: ds.map digitChar) := by
  split
  · next hnil =>
    rw [hnil]
    exact .none
  · next hne =>
    have hdigits : IsDigits (ds.map digitChar) := by
      refine ⟨fun h => hne (List.map_eq_nil_iff.mp h), fun c hc => ?_⟩
      obtain ⟨d, -, rfl⟩ := List.mem_map.mp hc
      exact isDigit_digitChar d
    have hvalues : (ds.map digitChar).map digitValue = ds := by
      simp [Function.comp_def, digitValue_digitChar]
    have hfraction := IsFraction.digits _ hdigits
    rwa [hvalues] at hfraction

def writeExponent : Option Int → List Char
  | none => []
  | some e => 'e' :: ((if e < 0 then ['-'] else []) ++ Nat.toDigits 10 e.natAbs)

theorem isExponent_write (e : Option Int) : IsExponent e (writeExponent e) := by
  cases e with
  | none => exact .none
  | some e =>
      have hdigits := isDigits_toDigits e.natAbs
      by_cases he : e < 0
      · have hminus := IsExponent.minus 'e' _ (Or.inl rfl) hdigits
        have hvalue : -(e.natAbs : Int) = e := by omega
        rw [Nat.ofDigitChars_ten_toDigits, hvalue] at hminus
        rwa [writeExponent, if_pos he]
      · have hunsigned := IsExponent.unsigned 'e' _ (Or.inl rfl) hdigits
        have hvalue : (e.natAbs : Int) = e := by omega
        rw [Nat.ofDigitChars_ten_toDigits, hvalue] at hunsigned
        rwa [writeExponent, if_neg he]

theorem isWrittenAs_write (n : Numeral) : IsWrittenAs n n.write := by
  obtain ⟨negative, whole, ds, e⟩ := n
  have hparts := IsWrittenAs.parts negative (Nat.toDigits 10 whole) ds _ e _
    (isDigits_toDigits whole) toDigits_of_head? (isFraction_write ds) (isExponent_write e)
  have hwrite : write ⟨negative, whole, ds, e⟩ =
      (if negative then ['-'] else []) ++ (Nat.toDigits 10 whole ++
        ((if ds = [] then [] else '.' :: ds.map digitChar) ++ writeExponent e)) := by
    cases e <;> simp [write, writeExponent]
  rwa [Nat.ofDigitChars_ten_toDigits, ← hwrite] at hparts

/-! ## Integers -/

/-- An integer of 64 bits with a sign is its own value. -/
theorem value?_ofInt {i : Int} (hlow : -9223372036854775808 ≤ i) (hhigh : i < 9223372036854775808) :
    (ofInt i).value? = some (.integer i) := by
  have hinteger : (ofInt i).isInteger = true := by
    by_cases hi : i < 0
    · simp [isInteger, ofInt, hi]
      omega
    · simp [isInteger, ofInt, hi]
      omega
  have hsign : (if decide (i < 0) = true then -(i.natAbs : Int) else i.natAbs) = i := by
    by_cases hi : i < 0
    · rw [if_pos (decide_eq_true hi)]
      omega
    · rw [if_neg (by simpa using hi)]
      omega
  rw [value?, if_pos hinteger]
  exact congrArg (fun j => some (Value.integer j)) hsign

end Json.Numeral

end StepTemplate
