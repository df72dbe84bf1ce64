import StepTemplate.Toml.Scalar
import StepTemplate.Toml.Text

namespace StepTemplate

/-!
# Keys and values of TOML

No key may be defined twice. A table is defined by a header, by dotted keys or by a pair of braces,
and where a table is only implied by longer names, a later header may still define it.
-/

namespace Toml

/-- A value. Only texts and arrays are told from the others. -/
inductive Value where
  | text (s : String)
  | array (items : List Value)
  | other

instance : Inhabited Value := ⟨.other⟩

/-- A part of the full name of an entry: a key, or the place in an array of tables. -/
inductive Segment where
  | key (name : String)
  | index (n : Nat)
  deriving DecidableEq, Repr

/-- What a full name is defined as. -/
inductive Entry where
  | value (v : Value)
  /-- A table with a header of its own. -/
  | table
  /-- A table implied by the header of another one. -/
  | implied
  /-- A table made by dotted keys. -/
  | dotted
  /-- An array of tables, and the number of its tables. -/
  | tables (count : Nat)

/-- The definitions of a document by full name, the latest first. -/
abbrev Definitions := List (List Segment × Entry)

namespace Definitions

/-- The full name of a table within `path`, on the way to a header. -/
def enterHeader (d : Definitions) (path : List Segment) :
    List String → Option (Definitions × List Segment)
  | [] => some (d, path)
  | name :: names =>
    let path := path ++ [.key name]
    match d.lookup path with
    | none => enterHeader ((path, .implied) :: d) path names
    | some .table | some .implied | some .dotted => enterHeader d path names
    | some (.tables count) => enterHeader d (path ++ [.index (count - 1)]) names
    | some (.value _) => none

/-- Defines a table by its header: the full name of the table. -/
def defineTable (d : Definitions) (names : List String) :
    Option (Definitions × List Segment) := do
  let (d, path) ← enterHeader d [] names.dropLast
  let last ← names.getLast?
  let path := path ++ [.key last]
  match d.lookup path with
  | none | some .implied => return ((path, .table) :: d, path)
  | _ => none

/-- Adds a table to an array of tables: the full name of the table. -/
def addTable (d : Definitions) (names : List String) : Option (Definitions × List Segment) := do
  let (d, path) ← enterHeader d [] names.dropLast
  let last ← names.getLast?
  let path := path ++ [.key last]
  match d.lookup path with
  | none => return ((path, .tables 1) :: d, path ++ [.index 0])
  | some (.tables count) =>
    return ((path, .tables (count + 1)) :: d, path ++ [.index count])
  | _ => none

/-- The full name of a table within `path`, on the way of a dotted key to its last part. That table
must be made by dotted keys; the ones before it may also be implied or the latest of an array. -/
def enterDotted (d : Definitions) (path : List Segment) :
    List String → Option (Definitions × List Segment)
  | [] => some (d, path)
  | name :: names =>
    let path := path ++ [.key name]
    match d.lookup path with
    | none => enterDotted ((path, .dotted) :: d) path names
    | some .dotted => enterDotted d path names
    | some .implied => if names.isEmpty then none else enterDotted d path names
    | some (.tables count) =>
      if names.isEmpty then none else enterDotted d (path ++ [.index (count - 1)]) names
    | some .table | some (.value _) => none

/-- Defines a value under a dotted key within the table `path`. -/
def defineValue (d : Definitions) (v : Value) (path : List Segment) (names : List String) :
    Option Definitions := do
  let (d, path) ← d.enterDotted path names.dropLast
  let last ← names.getLast?
  let path := path ++ [.key last]
  match d.lookup path with
  | none => return (path, .value v) :: d
  | some _ => none

end Definitions

namespace Reader

def isBareChar (c : Char) : Bool :=
  c.isAlphanum || c == '_' || c == '-'

def simpleKey : Reader String := do
  match ← lineString? with
  | some s => return String.ofList s
  | none =>
    let s ← takeWhile isBareChar
    if s.isEmpty then failure
    return String.ofList s

def keys : Nat → Reader (List String)
  | 0 => failure
  | fuel + 1 => do
    blanks
    let k ← simpleKey
    blanks
    if ← skipIf ['.'] then return k :: (← keys fuel) else return [k]

/-- How deep arrays and tables in braces may be nested, and how many keys a dotted key may have. -/
def nestingLimit : Nat := 80

def key : Reader (List String) := do
  let names ← keys ((← get).length + 1)
  if nestingLimit < names.length then failure
  return names

def isScalarChar (c : Char) : Bool :=
  isBareChar c || c == '+' || c == '.' || c == ':'

/-- Reads the characters of a bare scalar; a date goes on behind a space if a time follows. -/
def scalarText : Reader (List Char) := do
  let s ← takeWhile isScalarChar
  match ← get with
  | ' ' :: c :: _ =>
    if Scalar.isDate s && c.isDigit then
      let _ ← skipIf [' ']
      return s ++ ' ' :: (← takeWhile isScalarChar)
    else return s
  | _ => return s

mutual

/-- Reads a value, in which brackets may be nested up to a depth. -/
def value : Nat → Nat → Reader Value
  | 0, _ => failure
  | fuel + 1, depth => do
    match ← string? with
    | some s => return .text (String.ofList s)
    | none =>
      if ← skipIf ['['] then
        if depth = 0 then failure
        return .array (← items fuel (depth - 1))
      else if ← skipIf ['\x7b'] then
        if depth = 0 then failure
        members fuel (depth - 1) []
        return .other
      else
        if !Scalar.isValid (← scalarText) then failure
        return .other

/-- Reads items up to the closing bracket; a comma may follow the last one. -/
def items : Nat → Nat → Reader (List Value)
  | 0, _ => failure
  | fuel + 1, depth => do
    anySpace
    if ← skipIf [']'] then return []
    let v ← value fuel depth
    anySpace
    if ← skipIf [','] then return v :: (← items fuel depth)
    expect [']']
    return [v]

/-- Reads the members of a table in braces; a comma may follow the last one. -/
def members : Nat → Nat → Definitions → Reader Unit
  | 0, _, _ => failure
  | fuel + 1, depth, d => do
    anySpace
    if ← skipIf ['\x7d'] then return
    let k ← key
    anySpace
    expect ['=']
    anySpace
    let v ← value fuel depth
    let some d := d.defineValue v [] k | failure
    anySpace
    if ← skipIf [','] then members fuel depth d else expect ['\x7d']

end

/-- Reads a line with a header or with a key and its value, within the table `path`. -/
def line (d : Definitions) (path : List Segment) : Reader (Definitions × List Segment) := do
  if ← skipIf ['[', '['] then
    let k ← key
    expect [']', ']']
    let some result := d.addTable k | failure
    return result
  else if ← skipIf ['['] then
    let k ← key
    expect [']']
    let some result := d.defineTable k | failure
    return result
  else
    let k ← key
    expect ['=']
    blanks
    let v ← value ((← get).length + 1) nestingLimit
    let some d := d.defineValue v path k | failure
    return (d, path)

def lines : Nat → Definitions → List Segment → Reader Definitions
  | 0, _, _ => failure
  | fuel + 1, d, path => do
    anySpace
    if (← peek).isNone then return d
    let (d, path) ← line d path
    blanks
    comment
    if ← lineEnd then lines fuel d path
    else if (← peek).isNone then return d
    else failure

end Reader

/-- The definitions of a document. A byte order mark may precede it. -/
def definitions? (s : List Char) : Option Definitions :=
  let s := match s with
    | '\ufeff' :: s => s
    | s => s
  ((Reader.lines (s.length + 1) [] []).run s).map Prod.fst

end Toml

end StepTemplate
