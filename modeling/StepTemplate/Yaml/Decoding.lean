import StepTemplate.Document.Definition
import StepTemplate.Yaml.Node

namespace StepTemplate

/-!
# Reading records from YAML

A text is read from any scalar, whatever it looks like. A plain scalar that is not written stands
for an empty collection too. Tags matter only where a value may be absent, and for kinds and
integers. A document may not have its aliases followed without end: every one that is followed
counts, and the size of the document says how many may be.
-/

namespace Yaml

open Document

/-- A document that does not fit. -/
inductive Failure where
  | unfit
  deriving DecidableEq, Repr

/-- A step of the reading. It knows how many aliases may still be followed. -/
abbrev Reading := StateT Nat (Except Failure)

/-- The value that is there, or a failure. -/
def orUnfit {α : Type} : Option α → Except Failure α
  | some a => .ok a
  | none => .error .unfit

/-- Follows one alias. -/
def followAlias : Reading Unit := do
  match ← get with
  | 0 => throw .unfit
  | count + 1 => set count

/-- The node of a value, or the one that its alias stands for. -/
def Value.content (v : Value) : Reading Node := do
  match v.node with
  | .alias number =>
    followAlias
    return (v.named.lookup number).getD .absent
  | n => return n

def Value.readText (v : Value) : Reading String := do
  match ← v.content with
  | .scalar _ _ text => return text
  | _ => throw .unfit

/-- The words that stand for no value. -/
def nullWords : List String := ["null", "Null", "NULL", "~"]

def nullTag : Tag := .text "tag:yaml.org,2002:null"

def integerTag : Tag := .text "tag:yaml.org,2002:int"

/-- Whether a plain scalar stands for no value. A tag says that it does, or that it does not. -/
def isNull (tag : Option Tag) (text : String) : Except Failure Bool :=
  match tag with
  | none => .ok (text == "" || nullWords.contains text)
  | some tag =>
    if tag ≠ nullTag then .ok false
    else if nullWords.contains text then .ok true
    else .error .unfit

/-- Reads a text, or nothing from a plain scalar that stands for no value. -/
def Value.readOptionalText (v : Value) : Reading (Option String) := do
  match ← v.content with
  | .scalar .plain tag text => return if ← isNull tag text then none else some text
  | .scalar _ _ text => return some text
  | _ => throw .unfit

/-- The name in a tag of a document's own, which starts with an exclamation mark. -/
def localName? : Tag → Option String
  | .text s =>
    match s.toList with
    | ['!'] => some "!"
    | '!' :: name => some (String.ofList name)
    | _ => none
  | .unreadable => none

/-- The kind in a scalar: its word, or its word as a local tag of a plain scalar without a value. -/
def kindOfScalar (style : Style) (tag : Option Tag) (text : String) :
    Except Failure Argument.Kind :=
  match tag.bind localName? with
  | none => orUnfit (Argument.Kind.ofWord? text)
  | some name => do
    let k ← orUnfit (Argument.Kind.ofWord? name)
    if style == .plain && (text == "" || nullWords.contains text) then .ok k
    else .error .unfit

def Value.readKind (v : Value) : Reading Argument.Kind := do
  match ← v.content with
  | .scalar style tag text => kindOfScalar style tag text
  | _ => throw .unfit

def digitValue? (base : Nat) (c : Char) : Option Nat :=
  (Text.hexValue? c).filter (· < base)

def readDigits? (base : Nat) : List Char → Option Nat
  | [] => none
  | cs => cs.foldlM (fun n c => (digitValue? base c).map (base * n + ·)) 0

/-- Digits with the prefix of their base; decimal digits have no leading zeros. -/
def readUnsigned? : List Char → Option Nat
  | '0' :: 'x' :: cs => readDigits? 16 cs
  | '0' :: 'o' :: cs => readDigits? 8 cs
  | '0' :: 'b' :: cs => readDigits? 2 cs
  | ['0'] => some 0
  | '0' :: _ => none
  | cs => readDigits? 10 cs

def readInteger? : List Char → Option Int
  | '-' :: cs => (readUnsigned? cs).map fun n => -(n : Int)
  | '+' :: cs => (readUnsigned? cs).map (·)
  | cs => (readUnsigned? cs).map (·)

/-- The integer of 32 bits in a plain scalar, or in a literal block with the tag of an integer. -/
def offsetOfScalar (style : Style) (tag : Option Tag) (text : String) : Except Failure Int32 :=
  if style == .plain || (style == .literal && tag == some integerTag) then do
    let i ← orUnfit (readInteger? text.toList)
    orUnfit (Step.offsetOf? i)
  else .error .unfit

def Value.readOffset (v : Value) : Reading Int32 := do
  match ← v.content with
  | .scalar style tag text => offsetOfScalar style tag text
  | _ => throw .unfit

def Value.readList {α : Type} (read : Value → Reading α) (v : Value) : Reading (List α) := do
  match ← v.content with
  | .sequence items => items.mapM fun n => read (v.part n)
  | .scalar .plain _ "" => return []
  | _ => throw .unfit

/-- The pairs of a mapping. -/
def Value.pairs (v : Value) : Reading (List (Value × Value)) := do
  match ← v.content with
  | .mapping pairs => return pairs.map fun p => (v.part p.1, v.part p.2)
  | .scalar .plain _ "" => return []
  | _ => throw .unfit

/-- Reads a mapping of texts: of equal keys the last value at the first position. -/
def Value.readTextMap (v : Value) : Reading (OrderedMap String String) := do
  let entries ← (← v.pairs).mapM fun p => do return (← p.1.readText, ← p.2.readText)
  return OrderedMap.ofList entries

/-- Reads pairs into a draft. A field must not come twice, and a pair that is no field is passed
over. -/
def readDraft {δ α : Type} (r : Record Value Reading δ α) :
    δ → List (Value × Value) → Reading δ
  | d, [] => return d
  | d, (k, v) :: pairs => do
    match r.field? (← k.readText) with
    | some f =>
      if (f.get d).isSome then throw .unfit
      else readDraft r (f.set d (← f.read v)) pairs
    | none => readDraft r d pairs

def Value.readRecord {δ α : Type} (r : Record Value Reading δ α) (v : Value) : Reading α := do
  let d ← readDraft r r.start (← v.pairs)
  (r.finish d).mapError fun _ => Failure.unfit

def format : Format Value Reading where
  text := Value.readText
  optionalText := Value.readOptionalText
  kind := Value.readKind
  offset := Value.readOffset
  list := Value.readList
  textMap := Value.readTextMap
  record := Value.readRecord

/-- How many aliases may be followed for each mark of a document. -/
def aliasesForMark : Nat := 100

def readDocument {α : Type} (read : Value → Reading α) (text : String) : Except Failure α := do
  let v ← orUnfit (Value.ofText? text.toList)
  (read v).run' (aliasesForMark * v.node.size)

def readDeclared : String → Except Failure Argument.Declared :=
  readDocument (Value.readRecord (declared format))

def readResolved : String → Except Failure Argument.Resolved :=
  readDocument (Value.readRecord (resolved format))

def readStep : String → Except Failure Step :=
  readDocument (Value.readRecord (step format))

def readGroup : String → Except Failure Group :=
  readDocument (Value.readRecord (group format))

def readSettings : String → Except Failure Settings :=
  readDocument (Value.readRecord (settings format))

end Yaml

end StepTemplate
