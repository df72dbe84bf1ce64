import StepTemplate.OrderedMap
import StepTemplate.Text.Uppercase

namespace StepTemplate

/-!
# Steps

A step is one action of a test with its attributes. It may be linked to another step, beside which
it is to be placed. Invoking a group copies its steps into a namespace of their own.
-/

/-- An action with its attributes and its place in a sequence. -/
structure Step where
  key : String
  action : String
  attributes : OrderedMap String String
  /-- The key of the step next to which this one goes. -/
  link : Option String
  /-- Zero or less places the step before its target, more than zero after it. -/
  offset : Int32
  /-- Where the step came from. -/
  origin : OrderedMap String String
  deriving DecidableEq, Repr

namespace Step

open Text

/-- The offset of a number, if it has 32 bits. -/
def offsetOf? (n : Int) : Option Int32 :=
  if Int32.minValue.toInt ≤ n ∧ n ≤ Int32.maxValue.toInt then some (Int32.ofInt n) else none

theorem offsetOf?_toInt (n : Int32) : offsetOf? n.toInt = some n := by
  rw [offsetOf?, if_pos ⟨Int32.minValue_le_toInt n, Int32.toInt_le n⟩, Int32.ofInt_toInt]

def withAttribute (s : Step) (name value : String) : Step :=
  { s with attributes := s.attributes.insert name value }

def before (s : Step) (target : String) : Step :=
  { s with link := some target, offset := 0 }

def after (s : Step) (target : String) : Step :=
  { s with link := some target, offset := 1 }

def attribute? (s : Step) (name : String) : Option String :=
  s.attributes.get? name

/-- The entry of the origin that names the group. -/
def groupEntry : String := "actionGroupName"

/-- The entry of the origin that holds the invocation key. -/
def invocationEntry : String := "testInvocationRef"

def originGroup? (s : Step) : Option String :=
  s.origin.get? groupEntry

def originInvocation? (s : Step) : Option String :=
  s.origin.get? invocationEntry

/-- A step key in the namespace of an invocation: the capitalised invocation key follows it. -/
def namespacedKey (key invocation : String) : String :=
  key ++ String.ofList (capitalize invocation.toList)

/-- The origin of a step of the invocation `invocation` of `group`. -/
def stamp (group invocation : String) : OrderedMap String String :=
  (OrderedMap.empty.insert groupEntry group).insert invocationEntry invocation

/-- The copy of a step in the namespace of an invocation. Links lead to steps of the same
invocation. -/
def inNamespace (s : Step) (group invocation : String) : Step :=
  { s with
    key := namespacedKey s.key invocation
    link := s.link.map (namespacedKey · invocation)
    origin := stamp group invocation }

end Step

end StepTemplate
