namespace StepTemplate

/-!
# The nearest binary64 number

Numbers are rounded to the nearest binary64 number, a tie going to the even neighbour. All
arithmetic is exact. `stepwise?` rounds more than once on its way, as a reader does that keeps no
more than 64 bits of a number.
-/

namespace Decimal

/-- The quotient rounded to the nearest integer, a half going to the even neighbour. -/
def roundDiv (num den : Nat) : Nat :=
  let q := num / den
  let twice := 2 * (num % den)
  if twice < den then q
  else if den < twice then q + 1
  else q + q % 2

/-- The magnitude `mantissa * 2 ^ exponent`. -/
structure Binary where
  mantissa : Nat
  exponent : Int
  deriving DecidableEq, Repr

/-- `num / den * base ^ e` as a fraction. -/
def scale (base : Nat) (num den : Nat) (e : Int) : Nat × Nat :=
  (num * Nat.pow base e.toNat, den * Nat.pow base (-e).toNat)

/-- The least mantissa of 53 bits. -/
def leastNormal : Nat := 4503599627370496

/-- The binary64 magnitude nearest to `num / den`, or none above the largest one. -/
def nearest? (num den : Nat) : Option Binary :=
  if num = 0 then some ⟨0, 0⟩
  else
    let guess : Int := (num.log2 : Int) - den.log2
    let (n, d) := scale 2 num den (-guess)
    let top := if n < d then guess - 1 else guess
    let exponent := max (top - 52) (-1074)
    let (n, d) := scale 2 num den (-exponent)
    let mantissa := roundDiv n d
    let b : Binary :=
      if mantissa = 2 * leastNormal then ⟨leastNormal, exponent + 1⟩ else ⟨mantissa, exponent⟩
    if 971 < b.exponent then none else some b

/-- The binary64 magnitude nearest to `m * 10 ^ e`, or none above the largest one. -/
def ofDecimal? (m : Nat) (e : Int) : Option Binary :=
  let size : Int := (Nat.toDigits 10 m).length + e
  if m = 0 || size < -400 then some ⟨0, 0⟩
  else if 400 < size then none
  else
    let (num, den) := scale 10 m 1 e
    nearest? num den

def Binary.fraction (b : Binary) : Nat × Nat :=
  scale 2 b.mantissa 1 b.exponent

/-- The largest exponent of a power of ten among the binary64 magnitudes. -/
def topPower : Nat := 308

/-- The power of ten with an exponent up to `topPower`, rounded, as a fraction. -/
def roundedPower (k : Nat) : Nat × Nat :=
  ((nearest? (Nat.pow 10 k) 1).getD ⟨0, 0⟩).fraction

/-- The rounded product with a rounded power of ten, or none above the largest magnitude. -/
def Binary.raise? (b : Binary) (k : Nat) : Option Binary :=
  if topPower < k then none
  else nearest? (b.fraction.1 * (roundedPower k).1) (b.fraction.2 * (roundedPower k).2)

/-- The rounded quotient by a rounded power of ten, with an exponent up to `topPower`. -/
def Binary.over (b : Binary) (k : Nat) : Binary :=
  (nearest? (b.fraction.1 * (roundedPower k).2) (b.fraction.2 * (roundedPower k).1)).getD ⟨0, 0⟩

/-- Divides by a power of ten, over as many steps as it takes. -/
def Binary.lower (b : Binary) (k : Nat) : Binary :=
  if b.mantissa = 0 then b
  else if k ≤ topPower then b.over k
  else (b.over topPower).lower (k - topPower)
termination_by k
decreasing_by simp only [topPower] at *; omega

/-- The magnitude of `m * 10 ^ e`, where `m` is rounded first and then multiplied or divided. -/
def stepwise? (m : Nat) (e : Int) : Option Binary := do
  let b ← nearest? m 1
  if b.mantissa = 0 then return ⟨0, 0⟩
  else if 0 ≤ e then b.raise? e.toNat
  else return b.lower (-e).toNat

end Decimal

end StepTemplate
