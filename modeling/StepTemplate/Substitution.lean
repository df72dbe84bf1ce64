import StepTemplate.Argument
import StepTemplate.Placeholder.Scan
import StepTemplate.Scope
import StepTemplate.Text.Word

namespace StepTemplate

/-!
# Substitution

Each reference of a placeholder is bound to the argument named by its leading segment, and the
references are applied to the placeholder's text one after the other. A string argument stands for
itself, an entity lends its name, and a value with a scope marker turns the reference into a scoped
one. What is bound to nothing stays as it is.
-/

namespace Placeholder

open Text Argument

/-- The name of the argument to which a reference is bound: the segment before the first dot, and
without a dot the reference free of single quotes at its ends. -/
def boundName (reference : List Char) : List Char :=
  if '.' ∈ reference then reference.takeWhile (· != '.') else strip (· == '\x27') reference

inductive Position where
  | main
  | parameter
  deriving DecidableEq, Repr

structure Reference where
  text : List Char
  position : Position
  deriving DecidableEq, Repr

namespace Reference

def name (r : Reference) : List Char :=
  boundName r.text

/-- Whether this is a main reference that is a bare name. -/
def isBareMain (r : Reference) : Bool :=
  r.position == .main && r.text == r.name

/-- A main reference under a marker: the braces of the text become markers, and the name becomes
the unwrapped value. -/
def scopeMain (r : Reference) (m : Scope) (value s : List Char) : List Char :=
  replaceWord r.name (Scope.unwrap value)
    (replaceAll ['{', '{'] m.mark (replaceAll ['}', '}'] m.mark s))

/-- What a parameter becomes inside its markers: the unwrapped value takes the place of the leading
name. -/
def scopedParameter (r : Reference) (value : List Char) : List Char :=
  let bare := strip (· == '\x27') r.text
  if r.name.isPrefixOf bare then Scope.unwrap value ++ bare.drop r.name.length else bare

/-- A parameter under a marker: each entry equal to it becomes a scoped reference. -/
def scopeParameter (r : Reference) (m : Scope) (value s : List Char) : List Char :=
  replaceEntry r.text (m.wrap (r.scopedParameter value)) s

/-- Applies a reference that is bound to the given argument. -/
def apply (r : Reference) (b : Binding) (s : List Char) : List Char :=
  let value := b.value.toList
  match b.kind with
  | .string =>
    if r.isBareMain then replaceAll ('{' :: '{' :: (r.name ++ ['}', '}'])) value s
    else replaceWord r.name value s
  | .entity | .persisted =>
    match Scope.detect? value with
    | none => replaceWord r.name value s
    | some m =>
      match r.position with
      | .main => r.scopeMain m value s
      | .parameter => r.scopeParameter m value s

/-- Whether applying the reference replaces its name as a word everywhere. -/
def replacesWords (r : Reference) (b : Binding) : Bool :=
  match b.kind with
  | .string => !r.isBareMain
  | .entity | .persisted => r.position == .main || (Scope.detect? b.value.toList).isNone

end Reference

/-- A text while the references of a placeholder are applied to it. -/
structure Progress where
  text : List Char
  /-- The references applied so far. -/
  applied : List (List Char)
  /-- The names replaced as words so far. -/
  replaced : List (List Char)
  deriving DecidableEq, Repr

/-- Applies the next reference. One that was applied before, or whose name is already replaced, or
that is bound to nothing, changes nothing. -/
def Progress.next (t : Table) (p : Progress) (r : Reference) : Progress :=
  if r.text ∈ p.applied ∨ r.name ∈ p.replaced then p
  else
    match t.get? (String.ofList r.name) with
    | none => p
    | some b =>
      { text := r.apply b p.text
        applied := p.applied ++ [r.text]
        replaced := if r.replacesWords b then p.replaced ++ [r.name] else p.replaced }

/-- The references of a placeholder in the order in which they are applied. -/
def referenceList (p : Placeholder) : List Reference :=
  ⟨p.main, .main⟩ :: p.parameters.map fun text => ⟨text, .parameter⟩

/-- Applies the references of a placeholder to a text. -/
def substituteIn (t : Table) (p : Placeholder) (s : List Char) : List Char :=
  (p.referenceList.foldl (Progress.next t) ⟨s, [], []⟩).text

/-- What a piece of a text becomes: a placeholder changes only within its own bounds. -/
def Piece.substitute (t : Table) : Piece → List Char
  | .char c => [c]
  | .placeholder w => substituteIn t w.references w.text

end Placeholder

namespace Argument.Table

open Placeholder

/-- Applies the references of a placeholder, which need not occur in the text. -/
def substitute (t : Table) (p : Placeholder) (text : String) : String :=
  String.ofList (substituteIn t p text.toList)

/-- Substitutes every placeholder of a text and copies the rest. -/
def substituteAll (t : Table) (text : String) : String :=
  String.ofList ((cut text.toList).flatMap (Piece.substitute t))

end Argument.Table

end StepTemplate
