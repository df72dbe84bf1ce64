import StepTemplate.OrderedMap

namespace StepTemplate

/-!
# Arguments of a group

A group declares its arguments; one without a default must be supplied by each invocation. The
arguments of an invocation form a table by name.
-/

namespace Argument

/-- How the value of an argument enters a text. -/
inductive Kind where
  /-- The value itself. -/
  | string
  /-- The name of a data entity. -/
  | entity
  /-- A reference to data persisted at run time. -/
  | persisted
  deriving DecidableEq, Repr, Inhabited

def Kind.word : Kind → String
  | string => "string"
  | entity => "entity"
  | persisted => "persisted"

def Kind.all : List Kind := [string, entity, persisted]

def Kind.ofWord? (word : String) : Option Kind :=
  all.find? (·.word == word)

@[simp] theorem Kind.ofWord?_word (k : Kind) : ofWord? k.word = some k := by
  cases k <;> decide

/-- An argument as a group declares it; without a default value it is required. -/
structure Declared where
  name : String
  value : Option String
  kind : Kind
  deriving DecidableEq, Repr

def Declared.isRequired (d : Declared) : Bool :=
  d.value.isNone

/-- An argument with its value in one invocation. -/
structure Resolved where
  name : String
  value : String
  kind : Kind
  deriving DecidableEq, Repr

structure Binding where
  value : String
  kind : Kind
  deriving DecidableEq, Repr

/-- The arguments of an invocation by name. -/
abbrev Table := OrderedMap String Binding

namespace Table

def insert (t : Table) (a : Resolved) : Table :=
  OrderedMap.insert t a.name ⟨a.value, a.kind⟩

/-- The table of the given arguments: of two with one name the later one at the earlier place. -/
def ofList (as : List Resolved) : Table :=
  as.foldl insert OrderedMap.empty

def toList (t : Table) : List Resolved :=
  t.entries.map fun e => ⟨e.1, e.2.value, e.2.kind⟩

end Table

/-- The argument of an invocation that a declaration leads to: an override wins over the
default. -/
def Declared.supplied? (overrides : OrderedMap String String) (d : Declared) : Option Resolved :=
  ((overrides.get? d.name).or d.value).map fun value => ⟨d.name, value, d.kind⟩

/-- Required arguments of a group were left without a value. -/
structure Missing where
  group : String
  names : List String
  deriving DecidableEq, Repr

def Missing.message (m : Missing) : String :=
  "Arguments missed (" ++ ", ".intercalate m.names ++ ") for actionGroup \"" ++ m.group ++ "\""

/-- The table of an invocation, or the names of all declarations that are left without a value. -/
def resolve (group : String) (declared : List Declared) (overrides : OrderedMap String String) :
    Except Missing Table :=
  match declared.filter fun d => (d.supplied? overrides).isNone with
  | [] => .ok (Table.ofList (declared.filterMap fun d => d.supplied? overrides))
  | missing => .error ⟨group, missing.map Declared.name⟩

end Argument

end StepTemplate
