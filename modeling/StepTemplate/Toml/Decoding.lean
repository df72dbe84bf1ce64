import StepTemplate.Settings
import StepTemplate.Toml.Value

namespace StepTemplate

/-!
# Reading settings from TOML

The settings are one entry of a document, an array of texts; other entries are passed over.
-/

namespace Toml

/-- The entry that lists the attributes. -/
def settingsEntry : String := "variable_attributes"

def Value.text? : Value → Option String
  | .text s => some s
  | _ => none

def Value.texts? : Value → Option (List String)
  | .array items => items.mapM Value.text?
  | _ => none

/-- Reads settings; none from a document that is malformed or does not fit. -/
def readSettings? (text : String) : Option Settings := do
  match (← definitions? text.toList).lookup [.key settingsEntry] with
  | none => return .everything
  | some (.value v) => return ⟨← v.texts?⟩
  | some _ => none

end Toml

end StepTemplate
