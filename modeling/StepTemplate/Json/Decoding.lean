import StepTemplate.Document.Definition
import StepTemplate.Json.Failure

namespace StepTemplate

/-!
# Reading records from JSON

A tree is read from left to right, and the first problem ends the reading. A record may be written
as an object or as an array of its fields in order.
-/

namespace Json

open Document

abbrev Result := Except Failure

def Node.readText : Node → Result String
  | .text (some s) => .ok s
  | n => .error (n.mismatch .text)

def Node.readOptionalText : Node → Result (Option String)
  | .null => .ok none
  | n => some <$> n.readText

def Node.readOffset : Node → Result Int32
  | .number n =>
    match n.value? with
    | some (.integer i) =>
      match Step.offsetOf? i with
      | some n => .ok n
      | none => .error (.misfit (.outOfRange i))
    | _ => .error ((Node.number n).mismatch .integer32)
  | n => .error (n.mismatch .integer32)

def kindOfWord (word : String) : Result Argument.Kind :=
  match Argument.Kind.ofWord? word with
  | some k => .ok k
  | none => .error (.misfit (.unknownKind word))

/-- Reads a kind: its word, or an object with that word as its only key and `null` as value. -/
def Node.readKind : Node → Result Argument.Kind
  | .text (some word) => kindOfWord word
  | .object (.cons (.text (some word)) value rest) => do
    let k ← kindOfWord word
    match value, rest with
    | .null, .closed => .ok k
    | .null, _ => .error .malformed
    | v, _ => .error (v.mismatch .unit)
  | _ => .error .malformed

def Items.readEach {α : Type} (read : Node → Result α) : Items → Result (List α)
  | .closed => .ok []
  | .cut => .error .malformed
  | .cons x xs => do
    let a ← read x
    let as ← xs.readEach read
    return a :: as

def Node.readList {α : Type} (read : Node → Result α) : Node → Result (List α)
  | .array items => items.readEach read
  | n => .error (n.mismatch .sequence)

/-- Reads members with texts as values into a map. -/
def Members.readTexts (m : OrderedMap String String) :
    Members → Result (OrderedMap String String)
  | .closed => .ok m
  | .cons (.text (some key)) value rest => do
    let s ← value.readText
    rest.readTexts (m.insert key s)
  | _ => .error .malformed

def Node.readTextMap : Node → Result (OrderedMap String String)
  | .object members => members.readTexts .empty
  | n => .error (n.mismatch .map)

def readSlot {δ : Type} (f : Field Node Result δ) (d : δ) (value : Node) : Result δ := do
  return f.set d (← f.read value)

/-- Reads members into a draft. A field must not come twice, and a member that is no field only has
to be well-formed. -/
def Members.readDraft {δ α : Type} (r : Record Node Result δ α) (d : δ) : Members → Result δ
  | .closed => .ok d
  | .cons (.text (some key)) value rest =>
    match r.field? key with
    | some f =>
      if (f.get d).isSome then .error (.misfit (.duplicateField f.name))
      else do
        let d ← readSlot f d value
        rest.readDraft r d
    | none => if value.isWhole then rest.readDraft r d else .error .malformed
  | _ => .error .malformed

/-- Reads items as fields in order into a draft, and counts them. -/
def Items.readDraft {δ : Type} (count : Nat) (d : δ) :
    List (Field Node Result δ) → Items → Result (δ × Nat)
  | _, .closed => .ok (d, count)
  | f :: fields, .cons value rest => do
    let d ← readSlot f d value
    rest.readDraft (count + 1) d fields
  | _, _ => .error .malformed

def Node.readRecord {δ α : Type} (r : Record Node Result δ α) : Node → Result α
  | .object members => do
    let d ← members.readDraft r r.start
    (r.finish d).mapError fun name => .misfit (.missingField name)
  | .array items => do
    let (d, count) ← items.readDraft 0 r.start r.fields
    (r.finish d).mapError fun _ => .misfit (.invalidLength count r.title r.fields.length)
  | n => .error (n.mismatch (.record r.title))

def format : Format Node Result where
  text := Node.readText
  optionalText := Node.readOptionalText
  kind := Node.readKind
  offset := Node.readOffset
  list := Node.readList
  textMap := Node.readTextMap
  record := Node.readRecord

/-- Reads the one value of a document. What follows it is looked at last. -/
def readDocument {α : Type} (read : Node → Result α) (text : String) : Result α := do
  let reading := Reading.ofText text.toList
  let a ← read reading.root
  if reading.isComplete then .ok a else .error .malformed

def readDeclared : String → Result Argument.Declared :=
  readDocument (Node.readRecord (declared format))

def readResolved : String → Result Argument.Resolved :=
  readDocument (Node.readRecord (resolved format))

def readStep : String → Result Step :=
  readDocument (Node.readRecord (step format))

def readGroup : String → Result Group :=
  readDocument (Node.readRecord (group format))

def readSettings : String → Result Settings :=
  readDocument (Node.readRecord (settings format))

end Json

end StepTemplate
