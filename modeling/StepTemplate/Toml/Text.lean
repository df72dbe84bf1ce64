import StepTemplate.Text.Hexadecimal

namespace StepTemplate

/-!
# Blanks, comments and strings of TOML

A reader consumes the head of a document or fails. Strings come in four forms: with escapes or
without, on one line or on several.
-/

namespace Toml

/-- A step that consumes the head of a text or fails. -/
abbrev Reader := StateT (List Char) Option

namespace Reader

def peek : Reader (Option Char) := do
  return (← get).head?

def takeWhile (p : Char → Bool) : Reader (List Char) := do
  let s ← get
  set (s.dropWhile p)
  return s.takeWhile p

/-- Consumes the given characters if they come next. -/
def skipIf (cs : List Char) : Reader Bool := do
  let s ← get
  if cs.isPrefixOf s then
    set (s.drop cs.length)
    return true
  else return false

/-- Consumes the given characters, which must come next. -/
def expect (cs : List Char) : Reader Unit := do
  if !(← skipIf cs) then failure

def isBlank (c : Char) : Bool :=
  c == ' ' || c == '\t'

/-- The control characters, which stand nowhere but in line ends; the tab is none of them. -/
def isControl (c : Char) : Bool :=
  (c.toNat < 0x20 && c != '\t') || c.toNat == 0x7F

def blanks : Reader Unit := do
  let _ ← takeWhile isBlank

/-- Consumes a line end if there is one: its characters. -/
def lineBreak : Reader (List Char) := do
  if ← skipIf ['\n'] then return ['\n']
  else if ← skipIf ['\r', '\n'] then return ['\r', '\n']
  else return []

/-- Consumes a line end if there is one. -/
def lineEnd : Reader Bool := do
  return !(← lineBreak).isEmpty

def comment : Reader Unit := do
  if ← skipIf ['#'] then
    let _ ← takeWhile (!isControl ·)

/-- Consumes blanks, comments and line ends. -/
def space : Nat → Reader Unit
  | 0 => return ()
  | fuel + 1 => do
    blanks
    comment
    if ← lineEnd then space fuel

def anySpace : Reader Unit := do
  space ((← get).length + 1)

/-- The escapes with one letter. -/
def letterEscapes : List (Char × Char) :=
  [('b', '\x08'), ('t', '\t'), ('n', '\n'), ('f', '\x0c'), ('r', '\r'), ('e', '\x1b'), ('"', '"'),
    ('\\', '\\')]

/-- The escapes with a character code, and its number of digits. -/
def codeEscapes : List (Char × Nat) := [('x', 2), ('u', 4), ('U', 8)]

/-- Reads an escape behind its backslash. -/
def escape : Reader Char := do
  match ← get with
  | [] => failure
  | letter :: s =>
    match letterEscapes.lookup letter with
    | some c =>
      set s
      return c
    | none =>
      match codeEscapes.lookup letter with
      | none => failure
      | some count =>
        let digits := s.take count
        let some code := Text.hexNumber? digits | failure
        if digits.length = count ∧ code.isValidChar then
          set (s.drop count)
          return Char.ofNat code
        else failure

/-- Reads a string with escapes up to its closing quote, on one line. -/
def basic : Nat → Reader (List Char)
  | 0 => failure
  | fuel + 1 => do
    match ← get with
    | [] => failure
    | c :: s =>
      set s
      if c == '"' then return []
      else if c == '\\' then
        let e ← escape
        return e :: (← basic fuel)
      else if isControl c then failure
      else return c :: (← basic fuel)

/-- Reads a string without escapes up to its closing quote, on one line. -/
def literal : Reader (List Char) := do
  let cs ← takeWhile fun c => c != '\x27' && !isControl c
  expect ['\x27']
  return cs

/-- Whether a backslash stands before nothing but blanks up to the end of the line. -/
def continuesLine (s : List Char) : Bool :=
  let rest := s.dropWhile isBlank
  ['\n'].isPrefixOf rest || ['\r', '\n'].isPrefixOf rest

def emptyLines : Nat → Reader Unit
  | 0 => return ()
  | fuel + 1 => do
    blanks
    if ← lineEnd then emptyLines fuel

/-- Reads a string on several lines up to three quotes. Two more quotes may stand in front of
them. Line ends stay as they are written. -/
def multiline (quote : Char) (hasEscapes : Bool) : Nat → Reader (List Char)
  | 0 => failure
  | fuel + 1 => do
    if ← skipIf [quote, quote, quote] then
      let further ← takeWhile (· == quote)
      if 2 < further.length then failure
      return further
    let ending ← lineBreak
    if !ending.isEmpty then return ending ++ (← multiline quote hasEscapes fuel)
    else
      match ← get with
      | [] => failure
      | c :: s =>
        set s
        if hasEscapes && c == '\\' then
          if continuesLine s then
            emptyLines (s.length + 1)
            multiline quote hasEscapes fuel
          else
            let e ← escape
            return e :: (← multiline quote hasEscapes fuel)
        else if isControl c then failure
        else return c :: (← multiline quote hasEscapes fuel)

/-- Reads a string on several lines behind its opening quotes. A line end right behind them does
not count. -/
def multilineBody (quote : Char) (hasEscapes : Bool) : Reader (List Char) := do
  let _ ← lineEnd
  multiline quote hasEscapes ((← get).length + 1)

/-- Reads a string on one line, if there is one. -/
def lineString? : Reader (Option (List Char)) := do
  if ← skipIf ['"'] then
    let fuel := (← get).length + 1
    return some (← basic fuel)
  else if ← skipIf ['\x27'] then return some (← literal)
  else return none

def string? : Reader (Option (List Char)) := do
  if ← skipIf ['"', '"', '"'] then return some (← multilineBody '"' true)
  else if ← skipIf ['\x27', '\x27', '\x27'] then return some (← multilineBody '\x27' false)
  else lineString?

end Reader

end Toml

end StepTemplate
