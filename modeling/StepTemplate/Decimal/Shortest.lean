import StepTemplate.Decimal.Nearest

namespace StepTemplate

/-!
# The shortest text of a binary64 number

A binary64 number is written with the fewest decimal digits that lead back to it. All arithmetic is
exact.
-/

namespace Decimal

/-- The digits `digits` with the point before the first of them, shifted by `point` places. -/
structure Digits where
  digits : Nat
  point : Int
  deriving DecidableEq, Repr

/-- The number of decimal digits before the point of `num / den`, zero or less for zeros behind
it. -/
def magnitude (num den : Nat) : Int :=
  let guess : Int := ((Nat.toDigits 10 num).length : Int) - (Nat.toDigits 10 den).length
  let (n, d) := scale 10 num den (-guess)
  if n < d then guess else guess + 1

/-- Among the two decimals with `count` digits next to a binary number, the nearer one that lies in
the interval of numbers that round to it. Of two that are equally near it is the even one. -/
def candidate? (b : Binary) (count : Nat) : Option Digits :=
  let low := if b.mantissa = leastNormal && -1074 < b.exponent then 4 * b.mantissa - 1
    else 4 * b.mantissa - 2
  let (num, den) := scale 2 (4 * b.mantissa) 1 (b.exponent - 2)
  let point := magnitude num den
  let grid := point - count
  let (n, d) := scale 10 num den (-grid)
  -- The interval in units of the decimal grid, all over the denominator `d`.
  let unit := n / (4 * b.mantissa)
  let lowEnd := low * unit
  let highEnd := (4 * b.mantissa + 2) * unit
  let inside (x : Nat) : Bool :=
    if b.mantissa % 2 = 0 then lowEnd ≤ x * d && x * d ≤ highEnd
    else lowEnd < x * d && x * d < highEnd
  let below := n / d
  let above := below + 1
  let half := (below + above) * d
  let isBelow := 2 * n < half || (2 * n = half && below % 2 = 0)
  let nearer := if isBelow then [below, above] else [above, below]
  (nearer.find? inside).map fun x =>
    if x = Nat.pow 10 count then ⟨1, point + 1⟩ else ⟨x, point⟩

/-- The fewest digits that lead back to a binary number. -/
def shortest (b : Binary) : Digits :=
  ((List.range 17).findSome? fun k => candidate? b (k + 1)).getD ⟨0, 0⟩

/-- The notation of a number: positional with a point while the exponent is between -5 and 15, and
otherwise one digit before the point and a signed exponent. -/
def Digits.text (x : Digits) : List Char :=
  let digits := Nat.toDigits 10 x.digits
  let count : Int := digits.length
  let zeros (n : Int) := List.replicate n.toNat '0'
  if count ≤ x.point && x.point ≤ 16 then digits ++ zeros (x.point - count) ++ ['.', '0']
  else if 0 < x.point && x.point ≤ 16 then
    digits.take x.point.toNat ++ ['.'] ++ digits.drop x.point.toNat
  else if -5 < x.point && x.point ≤ 0 then ['0', '.'] ++ zeros (-x.point) ++ digits
  else
    let exponent := x.point - 1
    let sign := if exponent < 0 then '-' else '+'
    digits.take 1 ++ (if digits.length = 1 then [] else '.' :: digits.drop 1) ++
      ['e', sign] ++ Nat.toDigits 10 exponent.natAbs

def Binary.text (b : Binary) : List Char :=
  if b.mantissa = 0 then ['0', '.', '0'] else (shortest b).text

end Decimal

end StepTemplate
