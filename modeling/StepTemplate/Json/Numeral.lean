import StepTemplate.Decimal.Nearest

namespace StepTemplate

/-!
# Numbers of JSON

A number is kept as it is written, up to the spelling of its exponent. Its value is an integer of 64
bits where it can be one, and otherwise a binary64 number.
-/

namespace Json

/-- A number as written: `-12.050e3` has whole part 12, fraction 0, 5, 0 and exponent 3. -/
structure Numeral where
  negative : Bool
  whole : Nat
  /-- The digits behind the point; without a point there are none. -/
  fraction : List (Fin 10)
  exponent : Option Int
  deriving DecidableEq, Repr

namespace Numeral

def ofInt (n : Int) : Numeral :=
  ⟨decide (n < 0), n.natAbs, [], none⟩

def digitValue (c : Char) : Fin 10 :=
  Fin.ofNat 10 (c.toNat - 48)

def ofDigits (ds : List (Fin 10)) : Nat :=
  ds.foldl (fun n d => 10 * n + d.val) 0

/-- The digits at the head of a text, and the rest. -/
def readDigits (s : List Char) : List (Fin 10) × List Char :=
  ((s.takeWhile Char.isDigit).map digitValue, s.dropWhile Char.isDigit)

/-- A point with one or more digits, if there is a point. -/
def readFraction? : List Char → Option (List (Fin 10) × List Char)
  | '.' :: s =>
    match readDigits s with
    | ([], _) => none
    | (ds, rest) => some (ds, rest)
  | s => some ([], s)

/-- One or more digits of an exponent with the given sign. -/
def readPower? (negative : Bool) (s : List Char) : Option (Option Int × List Char) :=
  match readDigits s with
  | ([], _) => none
  | (ds, rest) => some (some (if negative then -(ofDigits ds : Int) else ofDigits ds), rest)

/-- An `e` in either case with a signed exponent, if there is one. -/
def readExponent? : List Char → Option (Option Int × List Char)
  | c :: s =>
    if c = 'e' ∨ c = 'E' then
      match s with
      | '+' :: s => readPower? false s
      | '-' :: s => readPower? true s
      | s => readPower? false s
    else some (none, c :: s)
  | [] => some (none, [])

/-- Reads an unsigned number and takes over the sign. The whole part has no leading zero. -/
def readUnsigned? (negative : Bool) (s : List Char) : Option (Numeral × List Char) := do
  let (whole, s) := readDigits s
  if whole = [] ∨ (whole.head? = some 0 ∧ 1 < whole.length) then none
  let (fraction, s) ← readFraction? s
  let (exponent, s) ← readExponent? s
  return (⟨negative, ofDigits whole, fraction, exponent⟩, s)

def read? : List Char → Option (Numeral × List Char)
  | '-' :: s => readUnsigned? true s
  | s => readUnsigned? false s

def digitChar (d : Fin 10) : Char :=
  Char.ofNat (48 + d.val)

def write (n : Numeral) : List Char :=
  (if n.negative then ['-'] else []) ++ Nat.toDigits 10 n.whole ++
    (if n.fraction = [] then [] else '.' :: n.fraction.map digitChar) ++
    match n.exponent with
    | none => []
    | some e => 'e' :: ((if e < 0 then ['-'] else []) ++ Nat.toDigits 10 e.natAbs)

inductive Value where
  | integer (n : Int)
  | float (negative : Bool) (magnitude : Decimal.Binary)
  deriving DecidableEq, Repr

/-- Whether a number is written as an integer and fits into 64 bits, with a sign if it has one. A
negative zero is no integer. -/
def isInteger (n : Numeral) : Bool :=
  n.fraction.isEmpty && n.exponent.isNone &&
    if n.negative then 0 < n.whole && n.whole ≤ 9223372036854775808
    else n.whole < 18446744073709551616

/-- Appends digits to a number while it stays below 2 ^ 64: the number, and the digits left over. -/
def appendDigits : Nat → List (Fin 10) → Nat × List (Fin 10)
  | n, [] => (n, [])
  | n, d :: ds =>
    if 10 * n + d.val < 18446744073709551616 then appendDigits (10 * n + d.val) ds
    else (n, d :: ds)

/-- The digits of a number that make up its significand, and the power of ten that it is short of.
The whole part gives as many digits as 64 bits hold, and so does the fraction after it. -/
def significand (n : Numeral) : Nat × Int :=
  let (m, skipped) := appendDigits 0 ((Nat.toDigits 10 n.whole).map digitValue)
  let (m, ignored) := appendDigits m n.fraction
  (m, n.exponent.getD 0 + skipped.length - (n.fraction.length - ignored.length : Nat))

/-- The value of a number; none if it is beyond the largest binary64 number. -/
def value? (n : Numeral) : Option Value :=
  if n.isInteger then some (.integer (if n.negative then -(n.whole : Int) else n.whole))
  else (Decimal.stepwise? n.significand.1 n.significand.2).map (.float n.negative)

end Numeral

end Json

end StepTemplate
