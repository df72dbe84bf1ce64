import StepTemplate.Text.Blank

namespace StepTemplate

/-!
# Scope markers

A value that stands for data persisted at run time is wrapped in a marker: `$x$` refers to data of
the current test, `$$x$$` to data created one level out.
-/

/-- The marker around a persisted value. -/
inductive Scope where
  | single
  | double
  deriving DecidableEq, Repr

namespace Scope

open Text

def mark : Scope → List Char
  | single => ['$']
  | double => ['$', '$']

def wrap (m : Scope) (inner : List Char) : List Char :=
  m.mark ++ inner ++ m.mark

def isSingleChar (c : Char) : Bool :=
  isWordChar c || c ∈ ['.', '[', ']', '(', ')', ' ']

def isDoubleChar (c : Char) : Bool :=
  isWordChar c || c ∈ ['.', '[', ']', '\x27', ',']

/-- Whether a text starts with `mark`, one or more characters of class `p`, and `mark` again. -/
def startsEnclosed (mark : List Char) (p : Char → Bool) (s : List Char) : Bool :=
  let rest := s.drop mark.length
  mark.isPrefixOf s && rest.takeWhile p != [] && mark.isPrefixOf (rest.dropWhile p)

/-- Whether somewhere in a text one or more characters of class `p` stand between two marks. -/
def hasEnclosed (mark : List Char) (p : Char → Bool) : List Char → Bool
  | [] => false
  | c :: cs => startsEnclosed mark p (c :: cs) || hasEnclosed mark p cs

/-- The marker of a value. A value is persisted if something stands between two single markers
anywhere in it, and doubly so if also something stands between two double markers. -/
def detect? (value : List Char) : Option Scope :=
  if hasEnclosed single.mark isSingleChar value then
    some (if hasEnclosed double.mark isDoubleChar value then double else single)
  else
    none

/-- A value without the `$` characters at its ends. -/
def unwrap (value : List Char) : List Char :=
  strip (· == '$') value

@[simp] theorem mark_single : single.mark = ['$'] := rfl

@[simp] theorem mark_double : double.mark = ['$', '$'] := rfl

end Scope

end StepTemplate
