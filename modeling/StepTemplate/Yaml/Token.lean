import StepTemplate.Yaml.Scalar
import StepTemplate.Yaml.Tag

namespace StepTemplate

/-!
# Tokens of YAML

The characters of a document become tokens. Indentation shows as tokens that open and close block
collections, and a key of a mapping is marked by a token in front of it, which is put there once
the colon behind the key is found.
-/

namespace Yaml

inductive Token where
  | version
  | tagHandle (handle : String) (expansion : Tag)
  | documentStart
  | documentEnd
  | blockSequenceStart
  | blockMappingStart
  | blockEnd
  | flowSequenceStart
  | flowSequenceEnd
  | flowMappingStart
  | flowMappingEnd
  | blockEntry
  | flowEntry
  | key
  | value
  | alias (name : String)
  | anchor (name : String)
  | tag (handle : String) (suffix : Tag)
  | scalar (style : Style) (text : String)
  deriving DecidableEq, Repr

def Token.isDirective : Token → Bool
  | version | tagHandle _ _ => true
  | _ => false

/-- A place where a key may have started: the number of tokens before it, and its line and
column. -/
structure Candidate where
  tokens : Nat
  isRequired : Bool
  line : Nat
  column : Nat
  index : Nat
  deriving DecidableEq, Repr

/-- The tokens found so far and what the rest depends on. -/
structure Layout where
  cursor : Cursor
  tokens : Array Token
  /-- The columns of the open block collections, the innermost first. -/
  indents : List Nat
  /-- For each open bracket, and for the block around them, where a key may have started. -/
  candidates : List (Option Candidate)
  /-- Whether a key may start at the cursor. -/
  allowsKey : Bool

namespace Layout

def start (s : List Char) : Layout :=
  ⟨Cursor.start s, #[], [], [none], true⟩

/-- The column of the innermost block collection, and -1 outside of all. -/
def indent (l : Layout) : Int :=
  match l.indents with
  | [] => -1
  | n :: _ => n

def inFlow (l : Layout) : Bool :=
  1 < l.candidates.length

def push (l : Layout) (t : Token) : Layout :=
  { l with tokens := l.tokens.push t }

/-- Consumes `n` characters and adds a token. -/
def take (l : Layout) (n : Nat) (t : Token) : Layout :=
  { l with cursor := l.cursor.skip n, tokens := l.tokens.push t }

def setCandidate (l : Layout) (k : Option Candidate) : Layout :=
  { l with candidates := k :: l.candidates.tail }

def candidate (l : Layout) : Option Candidate :=
  l.candidates.head?.join

/-- Gives up the place where a key may have started. A required key must not be given up. -/
def dropCandidate (l : Layout) : Option Layout :=
  if l.candidate.any (·.isRequired) then none else some (l.setCandidate none)

/-- Notes that a key may start here. At the column of a block collection it must be one. -/
def noteCandidate (l : Layout) : Option Layout :=
  if l.allowsKey then do
    let l ← l.dropCandidate
    let c := l.cursor
    return l.setCandidate
      (some ⟨l.tokens.size, !l.inFlow && l.indent == c.column, c.line, c.column, c.index⟩)
  else some l

/-- Opens a block collection at a column to the right of the others; its token goes in front of the
token with the given number. -/
def openBlock (l : Layout) (column position : Nat) (t : Token) : Layout :=
  if !l.inFlow && l.indent < column then
    { l with
      indents := column :: l.indents
      tokens := l.tokens.insertIdxIfInBounds position t }
  else l

/-- Closes the block collections to the right of a column. -/
def closeBlocks (l : Layout) (column : Int) : Layout :=
  if l.inFlow then l
  else
    let closed := l.indents.takeWhile fun n : Nat => decide (column < (n : Int))
    { l with
      indents := l.indents.drop closed.length
      tokens := l.tokens ++ closed.map fun _ => Token.blockEnd }

/-- Skips blanks, comments and line ends, and byte order marks that start a line. In block context a
key may start on a new line. -/
def skipBlanks : Nat → Layout → Layout
  | 0, l => l
  | fuel + 1, l =>
    let c := l.cursor.skipOrderMark.skipWhile fun b =>
      b == ' ' || ((l.inFlow || !l.allowsKey) && b == '\t')
    let c := if c.peek 0 == some '#' then c.skipWhile (!isBreak ·) else c
    if (c.peek 0).any isBreak then
      skipBlanks fuel { l with cursor := c.readBreak.2, allowsKey := l.allowsKey || !l.inFlow }
    else { l with cursor := c }

/-- The closing steps in front of a mark or the end of a document. -/
def closeAll (l : Layout) : Option Layout := do
  let l ← (l.closeBlocks (-1)).dropCandidate
  return { l with allowsKey := false }

/-- Reads the token of a directive, which takes up its line with the line end. -/
def readDirective (l : Layout) : Option Layout := do
  let l ← l.closeAll
  let line := l.cursor.rest.takeWhile (!isBreak ·)
  let t ← match ← Directive.ofLine? line with
    | .version => some .version
    | .tag handle expansion => some (.tagHandle handle expansion)
  return { l.take line.length t with cursor := (l.cursor.skip line.length).readBreak.2 }

def readMark (l : Layout) (t : Token) : Option Layout := do
  return (← l.closeAll).take 3 t

def openFlow (l : Layout) (t : Token) : Option Layout := do
  let l ← l.noteCandidate
  return { l.take 1 t with candidates := none :: l.candidates, allowsKey := true }

def closeFlow (l : Layout) (t : Token) : Option Layout := do
  let l ← l.dropCandidate
  let candidates := if l.inFlow then l.candidates.tail else l.candidates
  return { l.take 1 t with candidates := candidates, allowsKey := false }

def readFlowEntry (l : Layout) : Option Layout := do
  let l ← l.dropCandidate
  return { l.take 1 .flowEntry with allowsKey := true }

def readBlockEntry (l : Layout) : Option Layout := do
  if !l.inFlow && !l.allowsKey then none
  let l ← (l.openBlock l.cursor.column l.tokens.size .blockSequenceStart).dropCandidate
  return { l.take 1 .blockEntry with allowsKey := true }

def readKey (l : Layout) : Option Layout := do
  if !l.inFlow && !l.allowsKey then none
  let l ← (l.openBlock l.cursor.column l.tokens.size .blockMappingStart).dropCandidate
  return { l.take 1 .key with allowsKey := !l.inFlow }

/-- Whether a key that started at the candidate may end here: on the same line and not too far
off. -/
def isFresh (l : Layout) (k : Candidate) : Bool :=
  k.line == l.cursor.line && l.cursor.index ≤ k.index + 1024

/-- Reads a colon. What stands since the candidate is its key; without one the key is empty. -/
def readValue (l : Layout) : Option Layout := do
  match l.candidate.filter l.isFresh with
  | some k =>
    let l := { l with tokens := l.tokens.insertIdxIfInBounds k.tokens .key }
    let l := (l.openBlock k.column k.tokens .blockMappingStart).setCandidate none
    return { l.take 1 .value with allowsKey := false }
  | none =>
    if l.candidate.any (·.isRequired) || (!l.inFlow && !l.allowsKey) then none
    let l := l.openBlock l.cursor.column l.tokens.size .blockMappingStart
    return { (l.setCandidate none).take 1 .value with allowsKey := !l.inFlow }

/-- Adds a node that may be a key: the token, and the cursor behind it. -/
def addNode (l : Layout) (read : Layout → Option (Token × Cursor)) : Option Layout := do
  let l ← l.noteCandidate
  let (t, c) ← read l
  return { l with cursor := c, tokens := l.tokens.push t, allowsKey := false }

/-- Reads the name behind the indicator of an anchor or an alias. -/
def readName (make : String → Token) (l : Layout) : Option (Token × Cursor) :=
  let c := l.cursor.skip 1
  let name := c.rest.takeWhile isNameChar
  let c := c.skip name.length
  if name.isEmpty then none
  else if atBlank (c.peek 0) ||
      (c.peek 0).any (['?', ':', ',', ']', '\x7d', '%', '@', '\x60'].contains ·) then
    some (make (String.ofList name), c)
  else none

def readTag (l : Layout) : Option (Token × Cursor) := do
  let (handle, suffix, rest) ← Tag.read? l.cursor.rest
  let c := l.cursor.skip (l.cursor.rest.length - rest.length)
  if atBlank (c.peek 0) || (l.inFlow && c.peek 0 == some ',') then
    return (.tag handle suffix, c)
  else none

def readQuotedNode (quote : Char) (l : Layout) : Option (Token × Cursor) := do
  let c := l.cursor.skip 1
  let (text, c) ← readQuoted quote (c.rest.length + 1) [] c
  return (.scalar .quoted (String.ofList text), c)

def readBlockNode (isFolded : Bool) (l : Layout) : Option Layout := do
  let l ← l.dropCandidate
  let (text, c) ← readBlock isFolded l.indent (l.cursor.skip 1)
  let t := Token.scalar (if isFolded then .folded else .literal) (String.ofList text)
  return { l with cursor := c, tokens := l.tokens.push t, allowsKey := true }

/-- Reads a plain scalar. A line break behind it allows a key again. -/
def readPlainNode (l : Layout) : Option Layout := do
  let l ← l.noteCandidate
  let limit := (l.indent + 1).toNat
  let (text, isBroken, c) ←
    readPlain l.inFlow limit (l.cursor.rest.length + 1) [] Gap.none l.cursor
  let t := Token.scalar .plain (String.ofList text)
  return { l with cursor := c, tokens := l.tokens.push t, allowsKey := isBroken }

/-- The characters with which no plain scalar starts. -/
def indicators : List Char :=
  ['-', '?', ':', ',', '[', ']', '\x7b', '\x7d', '#', '&', '*', '!', '|', '>', '\x27', '"', '%',
    '@', '\x60']

/-- Whether a plain scalar starts with the character `c` in front of `next`. -/
def startsPlain (inFlow : Bool) (c : Char) (next : Option Char) : Bool :=
  (!atBlank (some c) && !indicators.contains c) || (c == '-' && !next.any isBlank) ||
    (!inFlow && (c == '?' || c == ':') && !atBlank next)

/-- Adds the token that starts with the character `c`. -/
def readToken (l : Layout) (c : Char) : Option Layout :=
  let next := l.cursor.peek 1
  if l.cursor.column == 0 && c == '%' then l.readDirective
  else if l.cursor.atMark Cursor.startMark then l.readMark .documentStart
  else if l.cursor.atMark Cursor.endMark then l.readMark .documentEnd
  else if c == '[' then l.openFlow .flowSequenceStart
  else if c == '\x7b' then l.openFlow .flowMappingStart
  else if c == ']' then l.closeFlow .flowSequenceEnd
  else if c == '\x7d' then l.closeFlow .flowMappingEnd
  else if c == ',' then l.readFlowEntry
  else if c == '-' && atBlank next then l.readBlockEntry
  else if c == '?' && (l.inFlow || atBlank next) then l.readKey
  else if c == ':' && (l.inFlow || atBlank next) then l.readValue
  else if c == '*' then l.addNode (readName .alias)
  else if c == '&' then l.addNode (readName .anchor)
  else if c == '!' then l.addNode readTag
  else if c == '|' && !l.inFlow then l.readBlockNode false
  else if c == '>' && !l.inFlow then l.readBlockNode true
  else if c == '\x27' || c == '"' then l.addNode (readQuotedNode c)
  else if startsPlain l.inFlow c next then l.readPlainNode
  else none

def readAll : Nat → Layout → Option (Array Token)
  | 0, _ => none
  | fuel + 1, l => do
    let l := skipBlanks (l.cursor.rest.length + 1) l
    match l.cursor.rest with
    | [] => return (← l.closeAll).tokens
    | c :: _ =>
      let l ← (l.closeBlocks l.cursor.column).readToken c
      readAll fuel l

end Layout

/-- The tokens of a text, unless it breaks a rule of the layout. -/
def Token.ofText? (s : List Char) : Option (List Token) :=
  if s.all isAllowed then (Layout.readAll (s.length + 1) (Layout.start s)).map Array.toList
  else none

end Yaml

end StepTemplate
