import StepTemplate.Text.Pieces

namespace StepTemplate

/-!
# Settings

The settings name the attributes whose values are searched for placeholders.
-/

/-- The attributes that are searched for placeholders; with none named, all are. -/
structure Settings where
  variableAttributes : List String
  deriving DecidableEq, Repr

namespace Settings

open Text

def everything : Settings := ⟨[]⟩

def selectorAttributes : List String :=
  ["selector", "dependentSelector", "selector1", "selector2", "function", "filterSelector",
    "optionSelector", "command", "html", "locale"]

def dataAttributes : List String :=
  ["userInput", "parameterArray", "expected", "actual", "expectedResult", "actualResult", "x", "y"]

/-- Only selectors, test data and the page address are searched. -/
def standard : Settings :=
  ⟨selectorAttributes ++ dataAttributes ++ ["url"]⟩

def isVariable (s : Settings) (name : String) : Bool :=
  s.variableAttributes.isEmpty || s.variableAttributes.contains name

/-- Replaces the list by the entries of a comma list, if there is one. -/
def override (s : Settings) : Option String → Settings
  | none => s
  | some list => ⟨(commaList list.toList).map String.ofList⟩

end Settings

end StepTemplate
