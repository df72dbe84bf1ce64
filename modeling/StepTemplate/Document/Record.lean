import StepTemplate.Argument

namespace StepTemplate

/-!
# Records in documents

What a definition looks like is said once for all document formats. A format tells how to read a
text, a list or a record from its own values; a record tells which fields it has. While a record is
read, a draft holds the fields found so far. Reading takes place in a monad `m` of the format.
-/

namespace Document

/-- A field of a record, read from values of type `ν` into drafts of type `δ`. -/
structure Field (ν : Type) (m : Type → Type) (δ : Type) where
  name : String
  /-- Other names of the field. -/
  aliases : List String
  Slot : Type
  read : ν → m Slot
  get : δ → Option Slot
  set : δ → Slot → δ

def Field.answersTo {ν : Type} {m : Type → Type} {δ : Type} (f : Field ν m δ) (key : String) :
    Bool :=
  f.name == key || f.aliases.contains key

/-- A record of type `α` with its fields in order. -/
structure Record (ν : Type) (m : Type → Type) (δ α : Type) where
  title : String
  fields : List (Field ν m δ)
  /-- The draft without any field. -/
  start : δ
  /-- The record of a draft, or the name of the first field that it lacks. -/
  finish : δ → Except String α

def Record.field? {ν : Type} {m : Type → Type} {δ α : Type} (r : Record ν m δ α) (key : String) :
    Option (Field ν m δ) :=
  r.fields.find? (·.answersTo key)

/-- How the parts of a definition are read from the values of a document format. -/
structure Format (ν : Type) (m : Type → Type) where
  text : ν → m String
  optionalText : ν → m (Option String)
  kind : ν → m Argument.Kind
  offset : ν → m Int32
  list : {α : Type} → (ν → m α) → ν → m (List α)
  textMap : ν → m (OrderedMap String String)
  record : {δ α : Type} → Record ν m δ α → ν → m α

/-- A field that must be there. -/
def required {α : Type} (name : String) : Option α → Except String α
  | some a => .ok a
  | none => .error name

@[simp] theorem required_some {α : Type} (name : String) (a : α) :
    required name (some a) = .ok a := rfl

end Document

end StepTemplate
