import StepTemplate.Text.Bytes

namespace StepTemplate

/-!
# Places in a YAML document

Indentation matters in YAML, so a cursor counts lines and columns while characters are consumed. A
line ends at any of five characters or at a carriage return with a line feed.
-/

namespace Yaml

def isBreak (c : Char) : Bool :=
  c == '\n' || c == '\r' || c == '\u0085' || c == '\u2028' || c == '\u2029'

def isBlank (c : Char) : Bool :=
  c == ' ' || c == '\t'

/-- Whether a line ends here. -/
def atBreak (c : Option Char) : Bool :=
  c.all isBreak

def atBlank (c : Option Char) : Bool :=
  c.all fun c => isBreak c || isBlank c

/-- The characters that may stand in a document: no controls but line ends and tabs. -/
def isAllowed (c : Char) : Bool :=
  let n := c.toNat
  n == 0x9 || n == 0xA || n == 0xD || (0x20 ≤ n && n ≤ 0x7E) || n == 0x85 ||
    (0xA0 ≤ n && n ≤ 0xFFFD) || 0x10000 ≤ n

/-- The rest of a document and where it starts. -/
structure Cursor where
  rest : List Char
  line : Nat
  column : Nat
  /-- The number of bytes before the rest. -/
  index : Nat
  deriving DecidableEq, Repr

namespace Cursor

open Text

def start (s : List Char) : Cursor := ⟨s, 0, 0, 0⟩

def peek (c : Cursor) (n : Nat) : Option Char :=
  c.rest[n]?

/-- Goes on by `n` characters of the same line. -/
def skip (c : Cursor) (n : Nat) : Cursor :=
  ⟨c.rest.drop n, c.line, c.column + n, c.index + byteLength (c.rest.take n)⟩

/-- Goes on by the characters of a class. -/
def skipWhile (c : Cursor) (p : Char → Bool) : Cursor :=
  c.skip (c.rest.takeWhile p).length

/-- Goes over a byte order mark at the start of a line. The mark takes up a column. -/
def skipOrderMark (c : Cursor) : Cursor :=
  if c.column == 0 && c.peek 0 == some '\ufeff' then c.skip 1 else c

/-- Goes to the next line, over `n` characters. -/
def newLine (c : Cursor) (n : Nat) : Cursor :=
  ⟨c.rest.drop n, c.line + 1, 0, c.index + byteLength (c.rest.take n)⟩

/-- Consumes the line break at the cursor, if there is one: the break as it counts in a text, and
the cursor behind it. Line and paragraph separators stay what they are. -/
def readBreak (c : Cursor) : List Char × Cursor :=
  match c.rest with
  | '\r' :: '\n' :: _ => (['\n'], c.newLine 2)
  | b :: _ =>
    if b == '\u2028' || b == '\u2029' then ([b], c.newLine 1)
    else if isBreak b then (['\n'], c.newLine 1)
    else ([], c)
  | [] => ([], c)

/-- Whether a document mark, three dashes or three points, stands at the start of a line. -/
def atMark (c : Cursor) (mark : List Char) : Bool :=
  c.column == 0 && mark.isPrefixOf c.rest && atBlank (c.peek 3)

def startMark : List Char := ['-', '-', '-']

def endMark : List Char := ['.', '.', '.']

def atDocumentMark (c : Cursor) : Bool :=
  c.atMark startMark || c.atMark endMark

end Cursor

end Yaml

end StepTemplate
