import StepTemplate.Group
import StepTemplate.Json.Printer

namespace StepTemplate

/-!
# Writing records as JSON

The fields of a record are written in a fixed order. A default value, a link and an origin are left
out where there is none.
-/

namespace Json

def ofText (s : String) : Node :=
  .text (some s)

def ofList {α : Type} (f : α → Node) (xs : List α) : Node :=
  .array (Items.ofList (xs.map f))

def ofTextMap (m : OrderedMap String String) : Node :=
  .object (Members.ofList (m.entries.map fun e => (e.1, ofText e.2)))

def ofOffset (n : Int32) : Node :=
  .number (Numeral.ofInt n.toInt)

def ofKind (k : Argument.Kind) : Node :=
  ofText k.word

/-- A member that is left out without a value. -/
def optionalMember (name : String) : Option Node → List (String × Node)
  | none => []
  | some n => [(name, n)]

def ofDeclared (d : Argument.Declared) : Node :=
  .object <| Members.ofList <|
    [("name", ofText d.name)] ++ optionalMember "value" (d.value.map ofText) ++
      [("type", ofKind d.kind)]

def ofResolved (a : Argument.Resolved) : Node :=
  .object <| Members.ofList
    [("name", ofText a.name), ("value", ofText a.value), ("type", ofKind a.kind)]

def ofStep (s : Step) : Node :=
  .object <| Members.ofList <|
    [("stepKey", ofText s.key), ("type", ofText s.action),
      ("attributes", ofTextMap s.attributes)] ++
      optionalMember "linkedAction" (s.link.map ofText) ++
      [("orderOffset", ofOffset s.offset)] ++
      optionalMember "actionOrigin" (if s.origin.isEmpty then none else some (ofTextMap s.origin))

def ofGroup (g : Group) : Node :=
  .object <| Members.ofList
    [("name", ofText g.name), ("arguments", ofList ofDeclared g.arguments),
      ("actions", ofList ofStep g.actions)]

def ofSettings (s : Settings) : Node :=
  .object <| Members.ofList [("variable_attributes", ofList ofText s.variableAttributes)]

/-- A value on one line. -/
def compactText (n : Node) : String :=
  String.ofList n.compact

/-- A value over several lines. -/
def prettyText (n : Node) : String :=
  String.ofList (n.pretty 0)

end Json

end StepTemplate
