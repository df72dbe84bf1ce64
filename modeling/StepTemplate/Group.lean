import StepTemplate.Sequence
import StepTemplate.Settings
import StepTemplate.Substitution

namespace StepTemplate

/-!
# Groups of steps

A group is a named list of steps with declared arguments. Each invocation of it yields copies of
its steps, with the arguments put in, in a namespace of their own.
-/

/-- A reusable group of steps. -/
structure Group where
  name : String
  arguments : List Argument.Declared
  actions : List Step
  deriving DecidableEq, Repr

namespace Group

open Argument

/-- The values that an invocation supplies, by argument name. -/
abbrev Overrides := OrderedMap String String

def stepKeys (g : Group) : List String :=
  g.actions.map Step.key

/-- A step with the arguments put into those attributes that are searched for placeholders. -/
def substituteStep (settings : Settings) (t : Table) (s : Step) : Step :=
  { s with
    attributes := s.attributes.mapValues fun name value =>
      if settings.isVariable name then t.substituteAll value else value }

/-- The step that an invocation makes of a declared one. -/
def expandStep (g : Group) (settings : Settings) (t : Table) (invocation : String) (s : Step) :
    Step :=
  (substituteStep settings t s).inNamespace g.name invocation

/-- The steps of an invocation by their new keys, as declared. -/
def expand (g : Group) (settings : Settings) (overrides : Overrides) (invocation : String) :
    Except Missing (OrderedMap String Step) := do
  let t ← resolve g.name g.arguments overrides
  return OrderedMap.ofList <| g.actions.map fun s =>
    let step := g.expandStep settings t invocation s
    (step.key, step)

/-- The steps of an invocation in their final order. -/
def invokeWith (g : Group) (mode : Sequencing) (settings : Settings) (overrides : Overrides)
    (invocation : String) : Except Missing (List Step) := do
  let steps ← g.expand settings overrides invocation
  return mode.sequence steps

/-- The steps of an invocation, every attribute searched and each linked step beside its target. -/
def invoke (g : Group) (overrides : Overrides) (invocation : String) :
    Except Missing (List Step) :=
  g.invokeWith .linked .everything overrides invocation

end Group

end StepTemplate
