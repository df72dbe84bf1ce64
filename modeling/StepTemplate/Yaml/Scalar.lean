import StepTemplate.Text.Hexadecimal
import StepTemplate.Yaml.Cursor

namespace StepTemplate

/-!
# Scalars of YAML

A scalar is plain, quoted or a block. Plain and quoted scalars fold the line breaks within them: one
break is a space, and of several the first is dropped. A block keeps its lines or folds them, and
its header says what happens to the breaks at its end.
-/

namespace Yaml

inductive Style where
  | plain
  | quoted
  | literal
  | folded
  deriving DecidableEq, Repr

/-- Blanks and line breaks between the parts of a scalar. -/
structure Gap where
  /-- The blanks before the first break. -/
  blanks : List Char
  isBroken : Bool
  /-- The first break. -/
  leading : List Char
  /-- The further breaks. -/
  trailing : List Char
  deriving DecidableEq, Repr

namespace Gap

def none : Gap := ⟨[], false, [], []⟩

def text (g : Gap) : List Char :=
  if !g.isBroken then g.blanks
  else if g.leading.head? == some '\n' then
    if g.trailing.isEmpty then [' '] else g.trailing
  else g.leading ++ g.trailing

/-- Reads blanks and breaks. Behind a break no tab may stand left of column `limit`. -/
def read : Nat → Nat → Gap → Cursor → Option (Gap × Cursor)
  | 0, _, _, _ => Option.none
  | fuel + 1, limit, g, c =>
    match c.peek 0 with
    | Option.none => some (g, c)
    | some b =>
      if isBlank b then
        if g.isBroken then
          if c.column < limit && b == '\t' then Option.none else read fuel limit g (c.skip 1)
        else read fuel limit { g with blanks := g.blanks ++ [b] } (c.skip 1)
      else if isBreak b then
        let (text, c) := c.readBreak
        if g.isBroken then read fuel limit { g with trailing := g.trailing ++ text } c
        else read fuel limit ⟨[], true, text, []⟩ c
      else some (g, c)

end Gap

/-- The characters that end a plain scalar inside brackets. -/
def flowIndicators : List Char := [',', '[', ']', '\x7b', '\x7d']

/-- The characters of a plain scalar up to a blank or to the end of the scalar. Inside brackets a
colon must not touch a character that ends a scalar. -/
def plainRun (inFlow : Bool) : List Char → Option (List Char)
  | [] => some []
  | c :: cs =>
    if atBlank (some c) then some []
    else if inFlow && c == ':' && cs.head?.any (fun d => d == '?' || flowIndicators.contains d) then
      none
    else if c == ':' && atBlank cs.head? then some []
    else if inFlow && flowIndicators.contains c then some []
    else (plainRun inFlow cs).map (c :: ·)

/-- Reads a plain scalar, whose further lines stand at column `limit` or to the right of it: its
text, whether a line break follows it, and where it ends. -/
def readPlain (inFlow : Bool) (limit : Nat) :
    Nat → List Char → Gap → Cursor → Option (List Char × Bool × Cursor)
  | 0, _, _, _ => none
  | fuel + 1, text, gap, c =>
    if c.atDocumentMark || c.peek 0 == some '#' then some (text, gap.isBroken, c)
    else do
      let run ← plainRun inFlow c.rest
      let c := c.skip run.length
      let text := if run.isEmpty then text else text ++ gap.text ++ run
      let gap := if run.isEmpty then gap else Gap.none
      if (c.peek 0).any fun b => isBlank b || isBreak b then
        let (gap, c) ← gap.read (c.rest.length + 1) limit c
        if !inFlow && c.column < limit then some (text, gap.isBroken, c)
        else readPlain inFlow limit fuel text gap c
      else some (text, gap.isBroken, c)

def letterEscapes : List (Char × Char) :=
  [('0', '\x00'), ('a', '\x07'), ('b', '\x08'), ('t', '\t'), ('\t', '\t'), ('n', '\n'),
    ('v', '\x0b'), ('f', '\x0c'), ('r', '\r'), ('e', '\x1b'), (' ', ' '), ('"', '"'), ('/', '/'),
    ('\\', '\\'), ('N', '\u0085'), ('_', '\u00a0'), ('L', '\u2028'), ('P', '\u2029')]

/-- The escapes of a double-quoted scalar with a character code, and its number of digits. -/
def codeEscapes : List (Char × Nat) := [('x', 2), ('u', 4), ('U', 8)]

/-- Reads the escape behind a backslash: its character, and how many characters it takes up. -/
def readEscape? : List Char → Option (Char × Nat)
  | [] => none
  | letter :: cs =>
    match letterEscapes.lookup letter with
    | some c => some (c, 1)
    | none => do
      let count ← codeEscapes.lookup letter
      let digits := cs.take count
      if digits.length < count then none
      let code ← Text.hexNumber? digits
      if code.isValidChar then some (Char.ofNat code, count + 1) else none

/-- Reads the rest of a quoted scalar up to its closing quote. -/
def readQuoted (quote : Char) : Nat → List Char → Cursor → Option (List Char × Cursor)
  | 0, _, _ => none
  | fuel + 1, text, c =>
    if c.atDocumentMark then none
    else
      match c.rest with
      | [] => none
      | d :: ds =>
        if d == quote then
          if quote == '\x27' && ds.head? == some quote then
            readQuoted quote fuel (text ++ [quote]) (c.skip 2)
          else some (text, c.skip 1)
        else if quote == '"' && d == '\\' then
          if ds.head?.any isBreak then do
            let (_, c) := (c.skip 1).readBreak
            let (gap, c) ← Gap.read (c.rest.length + 1) 0 ⟨[], true, [], []⟩ c
            readQuoted quote fuel (text ++ gap.text) c
          else do
            let (e, count) ← readEscape? ds
            readQuoted quote fuel (text ++ [e]) (c.skip (count + 1))
        else if isBlank d || isBreak d then do
          let (gap, c) ← Gap.none.read (c.rest.length + 1) 0 c
          readQuoted quote fuel (text ++ gap.text) c
        else
          let run := c.rest.takeWhile fun e =>
            !isBlank e && !isBreak e && e != quote && (quote != '"' || e != '\\')
          readQuoted quote fuel (text ++ run) (c.skip run.length)

/-- What happens to the line breaks at the end of a block. -/
inductive Chomping where
  | strip
  | clip
  | keep
  deriving DecidableEq, Repr

def readChomping (c : Cursor) : Option Chomping × Cursor :=
  match c.peek 0 with
  | some '+' => (some .keep, c.skip 1)
  | some '-' => (some .strip, c.skip 1)
  | _ => (none, c)

/-- Reads an explicit indentation, which must not be zero. -/
def readIndentation (c : Cursor) : Option (Option Nat × Cursor) :=
  match c.peek 0 with
  | some d =>
    if d == '0' then none
    else if d.isDigit then some (some (d.toNat - 48), c.skip 1)
    else some (none, c)
  | none => some (none, c)

/-- Reads the header of a block behind its indicator, up to and with the end of the line. -/
def readHeader (c : Cursor) : Option (Chomping × Option Nat × Cursor) := do
  let (chomping, c) := readChomping c
  let (indentation, c) ← readIndentation c
  let (chomping, c) := if chomping.isSome then (chomping, c) else readChomping c
  let c := c.skipWhile isBlank
  let c := if c.peek 0 == some '#' then c.skipWhile (!isBreak ·) else c
  if atBreak (c.peek 0) then some (chomping.getD .clip, indentation, c.readBreak.2) else none

/-- Reads the empty lines of a block: their breaks, the widest indentation met, and the place of the
next text. With the indentation known, spaces are consumed up to it; no tab may stand in it. -/
def readEmptyLines (indentation : Option Nat) :
    Nat → List Char → Nat → Cursor → Option (List Char × Nat × Cursor)
  | 0, _, _, _ => none
  | fuel + 1, breaks, widest, c =>
    let spaces := (c.rest.takeWhile (· == ' ')).length
    let c := c.skip (match indentation with
      | none => spaces
      | some n => min spaces (n - c.column))
    let widest := max widest c.column
    if c.peek 0 == some '\t' && indentation.all (c.column < ·) then none
    else if (c.peek 0).any isBreak then
      let (text, c) := c.readBreak
      readEmptyLines indentation fuel (breaks ++ text) widest c
    else some (breaks, widest, c)

/-- The text of a block so far. -/
structure Block where
  text : List Char
  /-- The break behind the last line. -/
  leading : List Char
  /-- The breaks of the empty lines behind that. -/
  trailing : List Char
  /-- Whether the last line starts with a blank. -/
  isIndented : Bool

/-- The breaks between the last line and one that starts with a blank or not. -/
def Block.join (isFolded startsBlank : Bool) (b : Block) : List Char :=
  if isFolded && b.leading.head? == some '\n' && !b.isIndented && !startsBlank then
    if b.trailing.isEmpty then [' '] else b.trailing
  else b.leading ++ b.trailing

/-- Reads the lines of a block at the given indentation. -/
def readLines (isFolded : Bool) (indentation : Nat) : Nat → Block → Cursor → Option (Block × Cursor)
  | 0, _, _ => none
  | fuel + 1, b, c =>
    if c.column == indentation && (c.peek 0).isSome then do
      let startsBlank := (c.peek 0).any isBlank
      let line := c.rest.takeWhile (!isBreak ·)
      let (leading, c') := (c.skip line.length).readBreak
      let (trailing, _, c') ← readEmptyLines (some indentation) (c'.rest.length + 1) [] 0 c'
      readLines isFolded indentation fuel
        ⟨b.text ++ b.join isFolded startsBlank ++ line, leading, trailing, startsBlank⟩ c'
    else some (b, c)

/-- Reads a block behind its indicator, inside a collection at column `indent`. -/
def readBlock (isFolded : Bool) (indent : Int) (c : Cursor) : Option (List Char × Cursor) := do
  let (chomping, explicit, c) ← readHeader c
  let known := explicit.map fun n => n + indent.toNat
  let fuel := c.rest.length + 1
  let (breaks, widest, c) ← readEmptyLines known fuel [] 0 c
  let indentation := known.getD (max (max widest (indent + 1).toNat) 1)
  let (b, c) ← readLines isFolded indentation fuel ⟨[], [], breaks, false⟩ c
  let ending := match chomping with
    | .strip => []
    | .clip => b.leading
    | .keep => b.leading ++ b.trailing
  return (b.text ++ ending, c)

end Yaml

end StepTemplate
