import StepTemplate.Document.Record
import StepTemplate.Group

namespace StepTemplate

/-!
# The records of a definition

The fields of groups, steps, arguments and settings as they stand in documents.
-/

namespace Document

open Argument

variable {ν : Type} {m : Type → Type}

structure DeclaredDraft where
  name : Option String := none
  value : Option (Option String) := none
  kind : Option Kind := none

/-- A declared argument: the default value may be absent, and the kind is then that of an
entity. -/
def declared (f : Format ν m) : Record ν m DeclaredDraft Declared where
  title := "DeclaredArgument"
  fields := [
    ⟨"name", [], String, f.text, (·.name), fun d x => { d with name := some x }⟩,
    ⟨"value", ["defaultValue"], Option String, f.optionalText, (·.value),
      fun d x => { d with value := some x }⟩,
    ⟨"type", [], Kind, f.kind, (·.kind), fun d x => { d with kind := some x }⟩]
  start := {}
  finish d := do
    return ⟨← required "name" d.name, d.value.getD none, d.kind.getD .entity⟩

structure ResolvedDraft where
  name : Option String := none
  value : Option String := none
  kind : Option Kind := none

/-- An argument with its value. -/
def resolved (f : Format ν m) : Record ν m ResolvedDraft Resolved where
  title := "ResolvedArgument"
  fields := [
    ⟨"name", [], String, f.text, (·.name), fun d x => { d with name := some x }⟩,
    ⟨"value", [], String, f.text, (·.value), fun d x => { d with value := some x }⟩,
    ⟨"type", [], Kind, f.kind, (·.kind), fun d x => { d with kind := some x }⟩]
  start := {}
  finish d := do
    return ⟨← required "name" d.name, ← required "value" d.value, ← required "type" d.kind⟩

structure StepDraft where
  key : Option String := none
  action : Option String := none
  attributes : Option (OrderedMap String String) := none
  link : Option (Option String) := none
  offset : Option Int32 := none
  origin : Option (OrderedMap String String) := none

/-- A step: only its key and its action must be there. -/
def step (f : Format ν m) : Record ν m StepDraft Step where
  title := "ActionStep"
  fields := [
    ⟨"stepKey", [], String, f.text, (·.key), fun d x => { d with key := some x }⟩,
    ⟨"type", [], String, f.text, (·.action), fun d x => { d with action := some x }⟩,
    ⟨"attributes", [], OrderedMap String String, f.textMap, (·.attributes),
      fun d x => { d with attributes := some x }⟩,
    ⟨"linkedAction", [], Option String, f.optionalText, (·.link),
      fun d x => { d with link := some x }⟩,
    ⟨"orderOffset", [], Int32, f.offset, (·.offset), fun d x => { d with offset := some x }⟩,
    ⟨"actionOrigin", [], OrderedMap String String, f.textMap, (·.origin),
      fun d x => { d with origin := some x }⟩]
  start := {}
  finish d := do
    return {
      key := ← required "stepKey" d.key
      action := ← required "type" d.action
      attributes := d.attributes.getD .empty
      link := d.link.getD none
      offset := d.offset.getD 0
      origin := d.origin.getD .empty }

structure GroupDraft where
  name : Option String := none
  arguments : Option (List Declared) := none
  actions : Option (List Step) := none

/-- A group: only its name must be there. -/
def group (f : Format ν m) : Record ν m GroupDraft Group where
  title := "ActionGroupDefinition"
  fields := [
    ⟨"name", [], String, f.text, (·.name), fun d x => { d with name := some x }⟩,
    ⟨"arguments", [], List Declared, f.list (f.record (declared f)), (·.arguments),
      fun d x => { d with arguments := some x }⟩,
    ⟨"actions", [], List Step, f.list (f.record (step f)), (·.actions),
      fun d x => { d with actions := some x }⟩]
  start := {}
  finish d := do
    return ⟨← required "name" d.name, d.arguments.getD [], d.actions.getD []⟩

structure SettingsDraft where
  variableAttributes : Option (List String) := none

/-- Settings: nothing must be there. -/
def settings (f : Format ν m) : Record ν m SettingsDraft Settings where
  title := "ResolverConfig"
  fields := [
    ⟨"variable_attributes", [], List String, f.list f.text, (·.variableAttributes),
      fun d x => { d with variableAttributes := some x }⟩]
  start := {}
  finish d := .ok ⟨d.variableAttributes.getD []⟩

end Document

end StepTemplate
