import StepTemplate.Text.Blank

namespace StepTemplate

/-!
# The words of a command line

A command line names a command and its options. An option has a long name and a letter; letters may
stand together in one word, and a value stands in the same word or in the next one.
-/

namespace CommandLine

inductive Verb where
  | resolve
  | keys
  deriving DecidableEq, Repr

def Verb.word : Verb → String
  | resolve => "resolve"
  | keys => "keys"

/-- The options that take a value. -/
inductive Parameter where
  | definition
  | key
  | argument
  | settings
  deriving DecidableEq, Repr

namespace Parameter

def all : List Parameter := [definition, key, argument, settings]

def name : Parameter → List Char
  | definition => "definition".toList
  | key => "key".toList
  | argument => "arg".toList
  | settings => "config".toList

def letter : Parameter → Char
  | definition => 'd'
  | key => 'k'
  | argument => 'a'
  | settings => 'c'

def isRepeatable : Parameter → Bool
  | argument => true
  | _ => false

end Parameter

def Verb.parameters : Verb → List Parameter
  | resolve => Parameter.all
  | keys => [.definition]

/-- The option without a value, which asks for more messages. -/
def verboseName : List Char := "verbose".toList

def verboseLetter : Char := 'v'

/-- What a word of the command line says. -/
inductive Word where
  /-- Nothing but options without a value. -/
  | flags
  /-- An option with its value. -/
  | option (p : Parameter) (value : List Char)
  /-- An option whose value is the next word. -/
  | pending (p : Parameter)
  /-- The end of the options. -/
  | ending
  deriving DecidableEq, Repr

namespace Word

/-- Reads letters that stand together; the last one may be an option with its value, perhaps with an
equals sign between them. -/
def ofLetters? (ps : List Parameter) : List Char → Option Word
  | [] => some flags
  | c :: cs =>
    if c = verboseLetter then ofLetters? ps cs
    else do
      let p ← ps.find? (·.letter == c)
      match cs with
      | [] => return pending p
      | '=' :: value => return option p value
      | value => return option p value

/-- Reads a long name, perhaps with an equals sign and a value. -/
def ofName? (ps : List Parameter) (s : List Char) : Option Word :=
  let name := s.takeWhile (· != '=')
  let value := s.dropWhile (· != '=')
  if s = verboseName then some flags
  else do
    let p ← ps.find? (·.name == name)
    match value with
    | [] => return pending p
    | _ :: value => return option p value

/-- Reads a word that starts with a dash. -/
def ofChars? (ps : List Parameter) : List Char → Option Word
  | ['-', '-'] => some ending
  | '-' :: '-' :: s => ofName? ps s
  | '-' :: c :: cs => ofLetters? ps (c :: cs)
  | _ => none

/-- Whether a word can be the value of the option in front of it. -/
def isValue (s : List Char) : Bool :=
  s.head? != some '-' || s == ['-']

end Word

def readOptions (ps : List Parameter) : List (List Char) → Option (List (Parameter × List Char))
  | [] => some []
  | w :: ws => do
    match ← Word.ofChars? ps w with
    | .flags => readOptions ps ws
    | .option p value => return (p, value) :: (← readOptions ps ws)
    | .pending p =>
      match ws with
      | [] => none
      | value :: ws =>
        if Word.isValue value then return (p, value) :: (← readOptions ps ws) else none
    | .ending => if ws.isEmpty then some [] else none

/-- The command and its options. Only options without a value may precede the command. -/
def readVerb : List (List Char) → Option (Verb × List (Parameter × List Char))
  | [] => none
  | w :: ws =>
    match [Verb.resolve, Verb.keys].find? (·.word.toList == w) with
    | some verb => (readOptions verb.parameters ws).map fun options => (verb, options)
    | none =>
      match Word.ofChars? [] w with
      | some .flags => readVerb ws
      | _ => none

/-- Reads `name=value`. Blanks around the name do not count, and there must be a name. -/
def readArgument? (s : List Char) : Option (String × String) :=
  let name := Text.trim (s.takeWhile (· != '='))
  match s.dropWhile (· != '=') with
  | [] => none
  | _ :: value =>
    if name.isEmpty then none else some (String.ofList name, String.ofList value)

inductive Command where
  /-- Prints the steps of an invocation. -/
  | resolve (definition key : String) (arguments : List (String × String))
      (settings : Option String)
  /-- Prints the step keys of a definition. -/
  | keys (definition : String)
  deriving DecidableEq, Repr

namespace Command

def valuesOf (p : Parameter) (options : List (Parameter × List Char)) : List (List Char) :=
  (options.filter (·.1 == p)).map Prod.snd

/-- Whether no option is given too often. -/
def areDistinct (options : List (Parameter × List Char)) : Bool :=
  Parameter.all.all fun p => p.isRepeatable || (valuesOf p options).length ≤ 1

def valueOf? (p : Parameter) (options : List (Parameter × List Char)) : Option String :=
  (valuesOf p options).head?.map String.ofList

/-- Whether every file that is named has a name. -/
def areNamed (options : List (Parameter × List Char)) : Bool :=
  options.all fun o => !o.2.isEmpty || !([Parameter.definition, .settings].contains o.1)

/-- The command that a command line asks for, if it is one. -/
def ofWords? (words : List String) : Option Command := do
  let (verb, options) ← readVerb (words.map String.toList)
  if !areDistinct options || !areNamed options then none
  let definition ← valueOf? .definition options
  match verb with
  | .keys => return keys definition
  | .resolve =>
    let key ← valueOf? .key options
    let arguments ← (valuesOf .argument options).mapM readArgument?
    return resolve definition key arguments (valueOf? .settings options)

end Command

end CommandLine

end StepTemplate
