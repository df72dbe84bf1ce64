import StepTemplate.CommandLine.Directory
import StepTemplate.CommandLine.Options
import StepTemplate.Json.Decoding
import StepTemplate.Json.Encoding
import StepTemplate.Toml.Decoding
import StepTemplate.Yaml.Decoding

namespace StepTemplate

/-!
# Running a command

A run goes through its stages in order: the settings, the definition, the arguments. The first stage
that fails decides the outcome, and nothing is printed then.
-/

namespace CommandLine

inductive Problem where
  | usage
  | unreadableSettings (path : String)
  | malformedSettings (path : String)
  | unreadableDefinition (path : String)
  | malformedDefinition (format path : String)
  | missingArguments (m : Argument.Missing)
  deriving DecidableEq, Repr

def Problem.message : Problem → String
  | usage => "usage"
  | unreadableSettings path => "Failed to read resolver config: " ++ path
  | malformedSettings path => "Failed to parse resolver config: " ++ path
  | unreadableDefinition path => "Failed to read action group: " ++ path
  | malformedDefinition format path => "Failed to parse action group " ++ format ++ ": " ++ path
  | missingArguments m => m.message

def Problem.exitCode : Problem → Nat
  | usage => 2
  | _ => 1

/-- Whether a path has the extension `json`. A name that is nothing but an extension has none. -/
def isJsonPath (path : List Char) : Bool :=
  let name := Directory.fileName path
  ".json".toList.isSuffixOf name && 5 < name.length

/-- Reads the definition in a file. Its format goes by its extension. -/
def loadGroup (d : Directory) (path : String) : Except Problem Group := do
  let some text := d.read? path | throw (.unreadableDefinition path)
  if isJsonPath path.toList then
    (Json.readGroup text).mapError fun _ => .malformedDefinition "JSON" path
  else
    (Yaml.readGroup text).mapError fun _ => .malformedDefinition "YAML" path

/-- Reads the settings in a file, if one is named. -/
def loadSettings (d : Directory) : Option String → Except Problem Settings
  | none => .ok .everything
  | some path => do
    let some text := d.read? path | throw (.unreadableSettings path)
    let some settings := Toml.readSettings? text | throw (.malformedSettings path)
    return settings

/-- The overrides of an invocation: of equal names the last one counts. -/
def overrides (arguments : List (String × String)) : Group.Overrides :=
  OrderedMap.ofList arguments

def unlines (lines : List String) : String :=
  String.join (lines.map (· ++ "\n"))

/-- What a command prints. The attribute list of the environment overrides that of the settings. -/
def Command.run (d : Directory) (environment : Option String) :
    Command → Except Problem String
  | .keys definition => do
    let g ← loadGroup d definition
    return unlines g.stepKeys
  | .resolve definition key arguments settings => do
    let settings ← loadSettings d settings
    let g ← loadGroup d definition
    let steps ← (g.invokeWith .linked (settings.override environment) (overrides arguments)
      key).mapError .missingArguments
    return unlines [Json.prettyText (Json.ofList Json.ofStep steps)]

def run (d : Directory) (environment : Option String) (words : List String) :
    Except Problem String :=
  match Command.ofWords? words with
  | none => .error .usage
  | some command => command.run d environment

/-- What a run leaves behind: its exit code, the text that it prints, and the error if it fails. -/
structure Outcome where
  exitCode : Nat
  output : String
  error : Option String
  deriving DecidableEq, Repr

/-- A run that fails prints nothing. -/
def Outcome.ofResult : Except Problem String → Outcome
  | .ok text => ⟨0, text, none⟩
  | .error problem => ⟨problem.exitCode, "", some problem.message⟩

def outcome (d : Directory) (environment : Option String) (words : List String) : Outcome :=
  Outcome.ofResult (run d environment words)

def Command.paths : Command → List String
  | .keys definition => [definition]
  | .resolve definition _ _ settings => settings.toList ++ [definition]

end CommandLine

end StepTemplate
