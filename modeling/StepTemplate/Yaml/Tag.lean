import StepTemplate.Text.Hexadecimal
import StepTemplate.Yaml.Cursor

namespace StepTemplate

/-!
# Tags and directives of YAML

A tag is written in full between angle brackets, or as a handle with a suffix. A directive states
the version of the language or what a handle stands for. A tag may spell bytes that are not those of
a text, and it ends in front of a zero byte.
-/

namespace Yaml

open Text

def isNameChar (c : Char) : Bool :=
  c.isAlphanum || c == '_' || c == '-'

/-- A tag, which is unreadable where its bytes are not those of a text. -/
inductive Tag where
  | text (s : String)
  | unreadable
  deriving DecidableEq, Repr

namespace Tag

/-- One tag behind the other. -/
def append : Tag → Tag → Tag
  | text a, text b => text (a ++ b)
  | _, _ => unreadable

instance : Append Tag := ⟨append⟩

@[simp] theorem text_append_text (a b : String) : text a ++ text b = text (a ++ b) := rfl

@[simp] theorem unreadable_append (t : Tag) : unreadable ++ t = unreadable := rfl

@[simp] theorem append_unreadable (t : Tag) : t ++ unreadable = unreadable := by
  cases t <;> rfl

/-- The characters in front of a zero. Bytes that are not those of a character stand as none. -/
def beforeZero (cs : List (Option Char)) : List (Option Char) :=
  cs.takeWhile (· != some '\x00')

def ofChars (cs : List (Option Char)) : Tag :=
  match (beforeZero cs).mapM id with
  | some cs => text (String.ofList cs)
  | none => unreadable

/-- The characters of a tag; three more stand in one that is written in full. -/
def isTagChar (isFull : Bool) (c : Char) : Bool :=
  isNameChar c || [';', '/', '?', ':', '@', '&', '=', '+', '$', '.', '!', '~', '*', '\x27', '(',
    ')'].contains c || (isFull && [',', '[', ']'].contains c)

/-- Reads a byte written as two hexadecimal digits behind a percent sign. -/
def readByte? : List Char → Option (Nat × List Char)
  | '%' :: high :: low :: s => do return (16 * (← hexValue? high) + (← hexValue? low), s)
  | _ => none

/-- Reads further bytes of a character, whose bytes so far make up `n`. -/
def readFurtherBytes? : Nat → Nat → List Char → Option (Nat × List Char)
  | 0, n, s => some (n, s)
  | count + 1, n, s => do
    let (b, s) ← readByte? s
    if b / 64 ≠ 2 then none
    readFurtherBytes? count (64 * n + b % 64) s

/-- Reads a character written as its bytes in UTF-8; none where the bytes have the form of a
character but are not those of one. -/
def readEscape? (s : List Char) : Option (Option Char × List Char) := do
  let (b, s) ← readByte? s
  let (count, n) ←
    if b < 0x80 then some (0, b)
    else if b < 0xC0 then none
    else if b < 0xE0 then some (1, b % 0x20)
    else if b < 0xF0 then some (2, b % 0x10)
    else if b < 0xF8 then some (3, b % 0x8)
    else none
  let (n, s) ← readFurtherBytes? count n s
  let c := Char.ofNat n
  return (if c.utf8Size = count + 1 then some c else none, s)

/-- Reads the characters of a tag, and what follows them. -/
def readChars? (isFull : Bool) : Nat → List Char → Option (List (Option Char) × List Char)
  | 0, _ => none
  | _ + 1, [] => some ([], [])
  | fuel + 1, c :: s =>
    if c == '%' then do
      let (e, s) ← readEscape? (c :: s)
      let (cs, rest) ← readChars? isFull fuel s
      return (e :: cs, rest)
    else if isTagChar isFull c then do
      let (cs, rest) ← readChars? isFull fuel s
      return (some c :: cs, rest)
    else some ([], c :: s)

/-- Reads one or more characters of a tag, and what follows them. -/
def readSuffix? (isFull : Bool) (s : List Char) : Option (Tag × List Char) := do
  let (cs, rest) ← readChars? isFull (s.length + 1) s
  if cs.isEmpty then none else return (ofChars cs, rest)

/-- Reads the tag at the head of a text: its handle, its suffix, and the rest of the text. One in
full has no handle, and neither has an exclamation mark with nothing behind it. -/
def read? : List Char → Option (String × Tag × List Char)
  | '!' :: '<' :: s => do
    match ← readSuffix? true s with
    | (suffix, '>' :: rest) => return ("", suffix, rest)
    | _ => none
  | '!' :: s =>
    let name := s.takeWhile isNameChar
    match s.drop name.length with
    | '!' :: s => do
      let (suffix, rest) ← readSuffix? false s
      return ("!" ++ String.ofList name ++ "!", suffix, rest)
    | s => do
      let (cs, rest) ← readChars? false (s.length + 1) s
      let suffix := ofChars (name.map some ++ cs)
      if suffix = text "" then return ("", text "!", rest) else return ("!", suffix, rest)
  | _ => none

end Tag

inductive Directive where
  | version
  | tag (handle : String) (expansion : Tag)
  deriving DecidableEq, Repr

namespace Directive

/-- Reads a number of at most nine digits. -/
def readNumber? (s : List Char) : Option (Nat × List Char) :=
  let digits := s.takeWhile Char.isDigit
  if digits.isEmpty || 9 < digits.length then none
  else some (digits.foldl (fun n c => 10 * n + (c.toNat - 48)) 0, s.drop digits.length)

/-- Reads the version 1.1 or 1.2. -/
def readVersion? (s : List Char) : Option (List Char) := do
  let (major, s) ← readNumber? (s.dropWhile isBlank)
  match s with
  | '.' :: s =>
    let (minor, s) ← readNumber? s
    if major = 1 ∧ (minor = 1 ∨ minor = 2) then return s else none
  | _ => none

/-- Reads a handle: an exclamation mark, or two with a name between them that may be empty. -/
def readHandle? : List Char → Option (String × List Char)
  | '!' :: s =>
    let name := s.takeWhile isNameChar
    match s.drop name.length with
    | '!' :: s => some ("!" ++ String.ofList name ++ "!", s)
    | s => if name.isEmpty then some ("!", s) else none
  | _ => none

def readTag? (s : List Char) : Option (Directive × List Char) := do
  let (handle, s) ← readHandle? (s.dropWhile isBlank)
  if !s.head?.any isBlank then none
  let (expansion, s) ← Tag.readSuffix? true (s.dropWhile isBlank)
  if atBlank s.head? then return (tag handle expansion, s) else none

/-- Whether nothing but blanks and a comment is left of a line. -/
def isEnded (s : List Char) : Bool :=
  (s.dropWhile isBlank).head?.all (· == '#')

/-- The directive on a line that starts with a percent sign. -/
def ofLine? (line : List Char) : Option Directive := do
  let s := line.drop 1
  let name := s.takeWhile isNameChar
  let s := s.drop name.length
  if !atBlank s.head? then none
  let (d, s) ←
    if name == "YAML".toList then (readVersion? s).map fun s => (version, s)
    else if name == "TAG".toList then readTag? s
    else none
  if isEnded s then return d else none

end Directive

end Yaml

end StepTemplate
