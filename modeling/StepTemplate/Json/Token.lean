import StepTemplate.Json.Numeral
import StepTemplate.Json.Quoted

namespace StepTemplate

/-!
# Tokens of JSON

A document is cut into tokens, and blanks between them are dropped. Where no token can be read, a
token `broken` ends the list.
-/

namespace Json

/-- A token. A text is absent if it keeps half of a surrogate pair. -/
inductive Token where
  | openObject
  | closeObject
  | openArray
  | closeArray
  | comma
  | colon
  | null
  | boolean (b : Bool)
  | number (n : Numeral)
  | text (s : Option String)
  | broken
  deriving DecidableEq, Repr

namespace Token

def isSpace (c : Char) : Bool :=
  c == ' ' || c == '\n' || c == '\t' || c == '\r'

def punctuation : List (Char × Token) :=
  [('\x7b', openObject), ('\x7d', closeObject), ('[', openArray), (']', closeArray), (',', comma),
    (':', colon)]

/-- The token that starts with the character `c`, and the rest of the text behind it. -/
def read? (c : Char) (s : List Char) : Option (Token × List Char) :=
  match punctuation.lookup c with
  | some t => some (t, s)
  | none =>
    if c = '"' then
      (Quoted.read? s).map fun (symbols, rest) =>
        (text ((Quoted.chars? symbols).map String.ofList), rest)
    else if c = '-' || c.isDigit then
      (Numeral.read? (c :: s)).map fun (n, rest) => (number n, rest)
    else
      match c, s with
      | 'n', 'u' :: 'l' :: 'l' :: rest => some (null, rest)
      | 't', 'r' :: 'u' :: 'e' :: rest => some (boolean true, rest)
      | 'f', 'a' :: 'l' :: 's' :: 'e' :: rest => some (boolean false, rest)
      | _, _ => none

/-- Cuts a text into tokens; `fuel` bounds their number. -/
def readAll : Nat → List Char → List Token
  | 0, _ => []
  | fuel + 1, s =>
    match s.dropWhile isSpace with
    | [] => []
    | c :: rest =>
      match read? c rest with
      | some (t, rest) => t :: readAll fuel rest
      | none => [broken]

/-- The tokens of a text; each takes up at least one character. -/
def ofText (s : List Char) : List Token :=
  readAll s.length s

end Token

end Json

end StepTemplate
