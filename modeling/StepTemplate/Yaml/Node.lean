import StepTemplate.OrderedMap
import StepTemplate.Yaml.Token

namespace StepTemplate

/-!
# Nodes of YAML

The tokens of a document are read into the tree of its one node. An alias is a leaf of the tree, and
a table says which node it stands for.
-/

namespace Yaml

/-- A node. An alias has the number of the anchor that it refers to. -/
inductive Node where
  | scalar (style : Style) (tag : Option Tag) (text : String)
  | sequence (items : List Node)
  | mapping (pairs : List (Node × Node))
  | alias (anchor : Nat)

instance : Inhabited Node := ⟨.sequence []⟩

/-- The node that is not written at all. -/
def Node.absent : Node := .scalar .plain none ""

mutual

/-- The number of marks that a node takes: one for a leaf, and two around the parts of another. -/
def Node.size : Node → Nat
  | .scalar _ _ _ => 1
  | .sequence items => itemsSize items + 2
  | .mapping pairs => pairsSize pairs + 2
  | .alias _ => 1

def itemsSize : List Node → Nat
  | [] => 0
  | n :: ns => n.size + itemsSize ns

def pairsSize : List (Node × Node) → Nat
  | [] => 0
  | p :: ps => pairSize p + pairsSize ps

def pairSize : Node × Node → Nat
  | (k, v) => k.size + v.size

end

/-- The tokens ahead, and what the ones before them have set up. -/
structure Ahead where
  tokens : List Token
  /-- The tag handles with what they stand for. -/
  handles : List (String × Tag)
  /-- The numbers of the anchors. A name that is used again gets a new number. -/
  anchors : OrderedMap String Nat
  /-- The nodes with an anchor by its number, in the order in which they start. -/
  named : Array (Nat × Node)

/-- A step of the reading, which fails where the tokens do not fit. -/
abbrev Reader := StateT Ahead Option

namespace Reader

def peek : Reader (Option Token) := do
  return (← get).tokens.head?

def skip : Reader Unit :=
  modify fun a => { a with tokens := a.tokens.tail }

def expect (t : Token) : Reader Unit := do
  if (← peek) = some t then skip else failure

def skipIf (t : Token) : Reader Bool := do
  if (← peek) = some t then
    skip
    return true
  else return false

def isNext (ts : List Token) : Reader Bool := do
  return (← peek).any (ts.contains ·)

/-- The tag that a handle with a suffix stands for. -/
def resolveTag (handle : String) (suffix : Tag) : Reader Tag := do
  if handle == "" then return suffix
  match (← get).handles.lookup handle with
  | some expansion => return expansion ++ suffix
  | none => failure

/-- Consumes an anchor if it comes next: its name. -/
def anchor? : Reader (Option String) := do
  match ← peek with
  | some (.anchor a) =>
    skip
    return some a
  | _ => return none

def tag? : Reader (Option Tag) := do
  match ← peek with
  | some (.tag handle suffix) =>
    skip
    return some (← resolveTag handle suffix)
  | _ => return none

/-- The anchor and the tag in front of a node, in either order. -/
def properties : Reader (Option String × Option Tag) := do
  match ← anchor? with
  | some a => return (some a, ← tag?)
  | none =>
    match ← tag? with
    | some t => return (← anchor?, some t)
    | none => return (none, none)

/-- Numbers the anchor of a node that starts here: the place of the node among those with an anchor.
The number is that of the names so far, so a name that is used again may share it with the next
new one. -/
def startNamed (name : String) : Reader Nat := do
  let a ← get
  let number := a.anchors.size
  set { a with
    anchors := a.anchors.insert name number
    named := a.named.push (number, Node.absent) }
  return a.named.size

/-- Notes which node has the anchor at a place. -/
def finishNamed (place : Nat) (n : Node) : Reader Unit :=
  modify fun a => { a with named := a.named.modify place fun e => (e.1, n) }

mutual

/-- Reads a node. Block collections are only expected where `inBlock` says so, and a block sequence
at the column of the mapping around it only where `isValue` does. -/
def node : Nat → Bool → Bool → Reader Node
  | 0, _, _ => failure
  | fuel + 1, inBlock, isValue => do
    if let some (.alias name) ← peek then
      skip
      match (← get).anchors.get? name with
      | some number => return .alias number
      | none => failure
    let (anchor, tag) ← properties
    match anchor with
    | none => content fuel inBlock isValue tag.isSome tag
    | some name =>
      let place ← startNamed name
      let n ← content fuel inBlock isValue true tag
      finishNamed place n
      return n

/-- Reads what stands behind the properties of a node. -/
def content : Nat → Bool → Bool → Bool → Option Tag → Reader Node
  | 0, _, _, _, _ => failure
  | fuel + 1, inBlock, isValue, hasProperties, tag => do
    match ← peek with
    | some (.scalar style text) =>
      skip
      return .scalar style tag text
    | some .blockEntry =>
      if isValue then return .sequence (← entries fuel)
      else if hasProperties then return .scalar .plain tag ""
      else failure
    | some .flowSequenceStart =>
      skip
      return .sequence (← flowItems fuel true)
    | some .flowMappingStart =>
      skip
      return .mapping (← flowPairs fuel true)
    | some .blockSequenceStart =>
      if inBlock then
        skip
        let items ← entries fuel
        expect .blockEnd
        return .sequence items
      else if hasProperties then return .scalar .plain tag ""
      else failure
    | some .blockMappingStart =>
      if inBlock then
        skip
        let pairs ← blockPairs fuel
        expect .blockEnd
        return .mapping pairs
      else if hasProperties then return .scalar .plain tag ""
      else failure
    | _ => if hasProperties then return .scalar .plain tag "" else failure

def entries : Nat → Reader (List Node)
  | 0 => failure
  | fuel + 1 => do
    if ← skipIf .blockEntry then
      let n ←
        if ← isNext [.blockEntry, .key, .value, .blockEnd] then pure Node.absent
        else node fuel true false
      return n :: (← entries fuel)
    else return []

def blockPairs : Nat → Reader (List (Node × Node))
  | 0 => failure
  | fuel + 1 => do
    if ← skipIf .key then
      let k ← blockPart fuel
      let v ← if ← skipIf .value then blockPart fuel else pure Node.absent
      return (k, v) :: (← blockPairs fuel)
    else return []

/-- Reads a key or a value of a block mapping. -/
def blockPart : Nat → Reader Node
  | 0 => failure
  | fuel + 1 => do
    if ← isNext [.key, .value, .blockEnd] then return Node.absent else node fuel true true

/-- Reads the items up to a closing bracket. A key that is marked but absent takes the token behind
it along. -/
def flowItems : Nat → Bool → Reader (List Node)
  | 0, _ => failure
  | fuel + 1, isFirst => do
    if ← skipIf .flowSequenceEnd then return []
    if !isFirst then expect .flowEntry
    if ← skipIf .flowSequenceEnd then return []
    if ← skipIf .key then
      let k ←
        if ← isNext [.value, .flowEntry, .flowSequenceEnd] then
          skip
          pure Node.absent
        else node fuel false false
      let v ←
        if ← skipIf .value then flowPart fuel [.flowEntry, .flowSequenceEnd]
        else pure Node.absent
      return .mapping [(k, v)] :: (← flowItems fuel false)
    else
      let n ← node fuel false false
      return n :: (← flowItems fuel false)

/-- Reads the pairs up to a closing brace. -/
def flowPairs : Nat → Bool → Reader (List (Node × Node))
  | 0, _ => failure
  | fuel + 1, isFirst => do
    if ← skipIf .flowMappingEnd then return []
    if !isFirst then expect .flowEntry
    if ← skipIf .flowMappingEnd then return []
    if ← skipIf .key then
      let k ← flowPart fuel [.value, .flowEntry, .flowMappingEnd]
      let v ←
        if ← skipIf .value then flowPart fuel [.flowEntry, .flowMappingEnd]
        else pure Node.absent
      return (k, v) :: (← flowPairs fuel false)
    else
      let k ← node fuel false false
      return (k, Node.absent) :: (← flowPairs fuel false)

/-- Reads a key or a value inside brackets, absent before one of the tokens `ends`. -/
def flowPart : Nat → List Token → Reader Node
  | 0, _ => failure
  | fuel + 1, ends => do
    if ← isNext ends then return Node.absent else node fuel false false

end

/-- The handles that need no directive. -/
def standardHandles : List (String × Tag) :=
  [("!", .text "!"), ("!!", .text "tag:yaml.org,2002:")]

/-- Reads the directives in front of a document, and whether there are any. None may be repeated. -/
def directives : Reader Bool := do
  let a ← get
  let ds := a.tokens.takeWhile Token.isDirective
  let handles : List (String × Tag) := ds.filterMap fun
    | .tagHandle handle expansion => some (handle, expansion)
    | _ => none
  if 1 < ds.count .version || !decide (handles.map Prod.fst).Nodup then failure
  set { a with tokens := a.tokens.drop ds.length, handles := handles ++ standardHandles }
  return !ds.isEmpty

/-- Reads the one document of a stream. Directives need a start mark behind them. A stream without
any token has an absent node. -/
def document (fuel : Nat) : Reader Node := do
  let hasDirectives ← directives
  let isExplicit ← skipIf .documentStart
  if hasDirectives && !isExplicit then failure
  let n ←
    match ← peek with
    | none => pure Node.absent
    | some t =>
      if t.isDirective || t = .documentStart || t = .documentEnd then
        if isExplicit then pure Node.absent else failure
      else node fuel true false
  modify fun a => { a with tokens := a.tokens.dropWhile (· = .documentEnd) }
  if (← peek).isSome then failure
  return n

end Reader

/-- A node with the nodes that its aliases stand for. -/
structure Value where
  node : Node
  /-- The nodes with an anchor by its number; the first one with a number counts. -/
  named : List (Nat × Node)

namespace Value

/-- A node inside of this one, or of another one of the document. -/
def part (v : Value) (n : Node) : Value :=
  { v with node := n }

/-- The value of a text that holds one document. -/
def ofText? (s : List Char) : Option Value := do
  let tokens ← Token.ofText? s
  let (n, a) ← (Reader.document (4 * tokens.length + 4)).run ⟨tokens, [], .empty, #[]⟩
  return ⟨n, a.named.toList.reverse⟩

end Value

end Yaml

end StepTemplate
