import StepTemplate.Text.Hexadecimal

namespace StepTemplate

/-!
# Quoted texts of JSON

Writing escapes quotes, backslashes and the controls below the space. Reading also knows the other
escapes. An escape may name one half of a surrogate pair; such a half is no character, and a text
that keeps one cannot be read, only skipped.
-/

namespace Json

/-- What one place of a quoted text stands for: a character, or half of a surrogate pair. -/
inductive Symbol where
  | char (c : Char)
  | half (unit : Nat)
  deriving DecidableEq, Repr

namespace Quoted

open Text

/-- The letters of the escapes with one letter, each with the character it stands for. -/
def letterEscapes : List (Char × Char) :=
  [('"', '"'), ('\\', '\\'), ('/', '/'), ('b', '\x08'), ('f', '\x0c'), ('n', '\n'), ('r', '\r'),
    ('t', '\t')]

def symbolOf (unit : Nat) : Symbol :=
  if 0xD800 ≤ unit ∧ unit < 0xE000 then .half unit else .char (Char.ofNat unit)

/-- Reads a quoted text behind its opening quote: its symbols, and what follows the closing
quote. -/
def read? : List Char → Option (List Symbol × List Char)
  | [] => none
  | '"' :: s => some ([], s)
  | '\\' :: 'u' :: h₁ :: h₂ :: h₃ :: h₄ :: s => do
    let unit ← hexNumber? [h₁, h₂, h₃, h₄]
    let (symbols, rest) ← read? s
    return (symbolOf unit :: symbols, rest)
  | '\\' :: letter :: s => do
    let c ← letterEscapes.lookup letter
    let (symbols, rest) ← read? s
    return (.char c :: symbols, rest)
  | c :: s =>
    if c == '\\' || c.toNat < 0x20 then none
    else do
      let (symbols, rest) ← read? s
      return (.char c :: symbols, rest)

/-- The characters of symbols, if each half is followed by its other half. -/
def chars? : List Symbol → Option (List Char)
  | [] => some []
  | .char c :: symbols => (chars? symbols).map (c :: ·)
  | .half high :: .half low :: symbols =>
    if high < 0xDC00 ∧ 0xDC00 ≤ low then
      (chars? symbols).map (Char.ofNat (0x10000 + (high - 0xD800) * 0x400 + (low - 0xDC00)) :: ·)
    else none
  | .half _ :: _ => none

/-- A character as it stands between quotes. -/
def escape (c : Char) : List Char :=
  match letterEscapes.find? fun e => e.2 == c && e.1 != '/' with
  | some e => ['\\', e.1]
  | none =>
    if c.toNat < 0x20 then
      ['\\', 'u', '0', '0', hexDigit (c.toNat / 16), hexDigit (c.toNat % 16)]
    else [c]

def write (s : List Char) : List Char :=
  '"' :: (s.flatMap escape ++ ['"'])

end Quoted

end Json

end StepTemplate
