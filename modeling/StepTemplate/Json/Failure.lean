import StepTemplate.Argument
import StepTemplate.Decimal.Shortest
import StepTemplate.Json.Node
import StepTemplate.Text.Quoted

namespace StepTemplate

/-!
# What can be wrong with a JSON document

A document is malformed, or it is well-formed up to a point where a value does not fit.
-/

namespace Json

inductive Expected where
  | text
  | sequence
  | map
  | integer32
  | unit
  | record (title : String)
  deriving DecidableEq, Repr

inductive Found where
  | null
  | boolean (b : Bool)
  | number (v : Numeral.Value)
  | text (s : String)
  | sequence
  | map
  deriving DecidableEq, Repr

/-- Why a well-formed value does not fit. -/
inductive Misfit where
  | missingField (name : String)
  | duplicateField (name : String)
  | unknownKind (word : String)
  | invalidType (found : Found) (expected : Expected)
  | outOfRange (n : Int)
  | invalidLength (n : Nat) (title : String) (fields : Nat)
  deriving DecidableEq, Repr

/-- The first problem of a document. -/
inductive Failure where
  | malformed
  | misfit (m : Misfit)
  deriving DecidableEq, Repr

def Expected.message : Expected → String
  | text => "a string"
  | sequence => "a sequence"
  | map => "a map"
  | integer32 => "i32"
  | unit => "unit"
  | record title => "struct " ++ title

/-- Encloses a text in backticks. -/
def ticked (s : String) : String :=
  "\x60" ++ s ++ "\x60"

def integerText (n : Int) : String :=
  String.ofList (Numeral.ofInt n).write

def Found.message : Found → String
  | null => "null"
  | boolean b => "boolean " ++ ticked (if b then "true" else "false")
  | number (.integer n) => "integer " ++ ticked (integerText n)
  | number (.float negative magnitude) =>
    "floating point " ++
      ticked ((if negative then "-" else "") ++ String.ofList magnitude.text)
  | text s => "string " ++ Text.quote s
  | sequence => "sequence"
  | map => "map"

def Misfit.message : Misfit → String
  | missingField name => "missing field " ++ ticked name
  | duplicateField name => "duplicate field " ++ ticked name
  | unknownKind word =>
    "unknown variant " ++ ticked word ++ ", expected one of " ++
      ", ".intercalate (Argument.Kind.all.map fun k => ticked k.word)
  | invalidType found expected =>
    "invalid type: " ++ found.message ++ ", expected " ++ expected.message
  | outOfRange n => "invalid value: integer " ++ ticked (integerText n) ++ ", expected i32"
  | invalidLength n title fields =>
    "invalid length " ++ integerText n ++ ", expected struct " ++ title ++ " with " ++
      integerText fields ++ " elements"

/-- A value found where another was expected. One that cannot be read is malformed. -/
def Node.mismatch (expected : Expected) : Node → Failure
  | .null => .misfit (.invalidType .null expected)
  | .boolean b => .misfit (.invalidType (.boolean b) expected)
  | .number n =>
    match n.value? with
    | some v => .misfit (.invalidType (.number v) expected)
    | none => .malformed
  | .text (some s) => .misfit (.invalidType (.text s) expected)
  | .text none => .malformed
  | .array _ => .misfit (.invalidType .sequence expected)
  | .object _ => .misfit (.invalidType .map expected)
  | .broken => .malformed

end Json

end StepTemplate
