import StepTemplate.Decimal.Nearest
import StepTemplate.Text.Hexadecimal
import StepTemplate.Text.Pieces

namespace StepTemplate

/-!
# Bare scalars of TOML

Numbers, truth values, dates and times are told apart by their spelling alone. Their values are of
no interest here, so each spelling is only recognised; but a number must not be too large.
-/

namespace Toml

namespace Scalar

open Text

/-- One or more characters of a class, with single underscores between them. -/
def isGrouped (p : Char → Bool) (s : List Char) : Bool :=
  (pieces '_' s).all fun g => !g.isEmpty && g.all p

/-- A text without its sign. -/
def unsigned : List Char → List Char
  | '+' :: s => s
  | '-' :: s => s
  | s => s

/-- Decimal digits without a leading zero. -/
def isDecimal (s : List Char) : Bool :=
  isGrouped Char.isDigit s && (s == ['0'] || s.head? != some '0')

/-- The number that digits write in a base; underscores do not count. -/
def number (base : Nat) (s : List Char) : Nat :=
  s.foldl (fun n c => if c == '_' then n else base * n + (hexValue? c).getD 0) 0

/-- Whether an integer has 128 bits, with a sign if it is negative. -/
def fitsInteger (negative : Bool) (n : Nat) : Bool :=
  if negative then n ≤ 170141183460469231731687303715884105728
  else n < 340282366920938463463374607431768211456

/-- Digits of a class that write an integer in a base. -/
def isBased (base : Nat) (p : Char → Bool) (s : List Char) : Bool :=
  isGrouped p s && fitsInteger false (number base s)

def isInteger : List Char → Bool
  | '0' :: 'x' :: s => isBased 16 (fun c => (hexValue? c).isSome) s
  | '0' :: 'o' :: s => isBased 8 (fun c => '0' ≤ c && c ≤ '7') s
  | '0' :: 'b' :: s => isBased 2 (fun c => c == '0' || c == '1') s
  | s => isDecimal (unsigned s) && fitsInteger (s.head? == some '-') (number 10 (unsigned s))

/-- Whether a number with the given parts is no larger than the largest binary64 number. -/
def fitsFloat (whole fraction exponent : List Char) : Bool :=
  let power := number 10 (unsigned exponent)
  let e : Int := if exponent.head? == some '-' then -(power : Int) else power
  let places := (fraction.filter (· != '_')).length
  (Decimal.ofDecimal? (number 10 (whole ++ fraction)) (e - places)).isSome

/-- A decimal integer, a fraction of one or more digits if there is a point, and an exponent if
there is an `e`. -/
def isFloat (s : List Char) : Bool :=
  let s := unsigned s
  let isExponent (c : Char) : Bool := c == 'e' || c == 'E'
  let mantissa := s.takeWhile (!isExponent ·)
  let whole := mantissa.takeWhile (· != '.')
  let fraction := mantissa.drop (whole.length + 1)
  let exponent := s.drop (mantissa.length + 1)
  let hasPoint := mantissa.contains '.'
  let hasExponent := s.any isExponent
  (hasPoint || hasExponent) && isDecimal whole &&
    (!hasPoint || isGrouped Char.isDigit fraction) &&
    (!hasExponent || isGrouped Char.isDigit (unsigned exponent)) &&
    fitsFloat whole fraction exponent

def isSpecialFloat (s : List Char) : Bool :=
  let s := unsigned s
  s == ['i', 'n', 'f'] || s == ['n', 'a', 'n']

/-- The number that exactly `count` digits write. -/
def number? (count : Nat) (s : List Char) : Option Nat :=
  if s.length = count ∧ s.all Char.isDigit then some (number 10 s) else none

def isLeapYear (year : Nat) : Bool :=
  year % 4 == 0 && (year % 100 != 0 || year % 400 == 0)

def daysIn (year month : Nat) : Nat :=
  if month == 2 then (if isLeapYear year then 29 else 28)
  else if [4, 6, 9, 11].contains month then 30
  else 31

def isDate (s : List Char) : Bool :=
  match (pieces '-' s) with
  | [y, m, d] =>
    match number? 4 y, number? 2 m, number? 2 d with
    | some year, some month, some day =>
      1 ≤ month && month ≤ 12 && 1 ≤ day && day ≤ daysIn year month
    | _, _, _ => false
  | _ => false

/-- Seconds, perhaps with a fraction. -/
def isSeconds (s : List Char) : Bool :=
  let whole := s.takeWhile (· != '.')
  let fraction := s.drop (whole.length + 1)
  (number? 2 whole).any (· ≤ 60) &&
    (whole.length == s.length || (!fraction.isEmpty && fraction.all Char.isDigit))

/-- Hours and minutes, perhaps with seconds. -/
def isTime (s : List Char) : Bool :=
  match pieces ':' s with
  | [h, m] => (number? 2 h).any (· ≤ 23) && (number? 2 m).any (· ≤ 59)
  | [h, m, sec] =>
    (number? 2 h).any (· ≤ 23) && (number? 2 m).any (· ≤ 59) && isSeconds sec
  | _ => false

/-- Hours and minutes of an offset behind its sign. -/
def isOffset (s : List Char) : Bool :=
  match pieces ':' s with
  | [h, m] => (number? 2 h).any (· ≤ 23) && (number? 2 m).any (· ≤ 59)
  | _ => false

/-- A time that may have an offset. -/
def isOffsetTime (s : List Char) : Bool :=
  let time := s.takeWhile fun c => c.isDigit || c == ':' || c == '.'
  isTime time &&
    match s.drop time.length with
    | [] => true
    | ['Z'] | ['z'] => true
    | '+' :: offset | '-' :: offset => isOffset offset
    | _ => false

/-- A date and a time with a `T` or a space between them. -/
def isDateTime (s : List Char) : Bool :=
  isDate (s.take 10) && isOffsetTime (s.drop 11) &&
    (s[10]?).any fun c => c == 'T' || c == 't' || c == ' '

/-- Whether a text spells a number, a truth value, a date or a time. -/
def isValid (s : List Char) : Bool :=
  s == ['t', 'r', 'u', 'e'] || s == ['f', 'a', 'l', 's', 'e'] || isInteger s || isFloat s ||
    isSpecialFloat s || isDate s || isTime s || isDateTime s

end Scalar

end Toml

end StepTemplate
