import StepTemplate.Json.Token

namespace StepTemplate

/-!
# Trees of JSON

A document is read into a tree even if it is malformed. The tree then shows where: a node is
broken, or the items of an array or the members of an object are cut off. So a reader of the tree
that goes from left to right meets the first problem of the document first.
-/

namespace Json

mutual

/-- A value of a document. A text is absent if it keeps half of a surrogate pair. -/
inductive Node where
  | null
  | boolean (b : Bool)
  | number (n : Numeral)
  | text (s : Option String)
  | array (items : Items)
  | object (members : Members)
  | broken

/-- The items of an array, closed by a bracket or cut off. -/
inductive Items where
  | closed
  | cut
  | cons (item : Node) (rest : Items)

/-- The members of an object, closed by a brace or cut off. A key that is no text breaks its
member off. -/
inductive Members where
  | closed
  | cut
  | cons (key value : Node) (rest : Members)

end

instance : Inhabited Node := ⟨.null⟩

def Items.ofList : List Node → Items
  | [] => .closed
  | x :: xs => .cons x (ofList xs)

def Members.ofList : List (String × Node) → Members
  | [] => .closed
  | (k, v) :: ms => .cons (.text (some k)) v (ofList ms)

mutual

/-- Whether a value is well-formed. -/
def Node.isWhole : Node → Bool
  | .array items => items.isWhole
  | .object members => members.isWhole
  | .broken => false
  | .null | .boolean _ | .number _ | .text _ => true

def Items.isWhole : Items → Bool
  | .closed => true
  | .cut => false
  | .cons x xs => x.isWhole && xs.isWhole

def Members.isWhole : Members → Bool
  | .closed => true
  | .cut => false
  | .cons k v ms => k.isWhole && v.isWhole && ms.isWhole

end

mutual

/-- Reads the value at the head of a list of tokens; `fuel` bounds the depth of the reading. -/
def Node.read : Nat → List Token → Node × List Token
  | fuel + 1, .openArray :: ts =>
    match ts with
    | .closeArray :: ts => (.array .closed, ts)
    | ts =>
      let (items, rest) := Items.read fuel ts
      (.array items, rest)
  | fuel + 1, .openObject :: ts =>
    match ts with
    | .closeObject :: ts => (.object .closed, ts)
    | ts =>
      let (members, rest) := Members.read fuel ts
      (.object members, rest)
  | _ + 1, .null :: ts => (.null, ts)
  | _ + 1, .boolean b :: ts => (.boolean b, ts)
  | _ + 1, .number n :: ts => (.number n, ts)
  | _ + 1, .text s :: ts => (.text s, ts)
  | _, _ => (.broken, [])

/-- Reads one or more items up to the closing bracket. -/
def Items.read : Nat → List Token → Items × List Token
  | 0, _ => (.cut, [])
  | fuel + 1, ts =>
    let (item, rest) := Node.read fuel ts
    match rest with
    | .comma :: rest =>
      let (items, rest) := Items.read fuel rest
      (.cons item items, rest)
    | .closeArray :: rest => (.cons item .closed, rest)
    | _ => (.cons item .cut, [])

/-- Reads one or more members up to the closing brace. -/
def Members.read : Nat → List Token → Members × List Token
  | 0, _ => (.cut, [])
  | fuel + 1, .text key :: .colon :: ts =>
    let (value, rest) := Node.read fuel ts
    match rest with
    | .comma :: rest =>
      let (members, rest) := Members.read fuel rest
      (.cons (.text key) value members, rest)
    | .closeObject :: rest => (.cons (.text key) value .closed, rest)
    | _ => (.cons (.text key) value .cut, [])
  | fuel + 1, ts => (.cons (Node.read fuel ts).1 .broken .cut, [])

end

/-- What is read of a document: its value, and whether nothing but blanks follows it. -/
structure Reading where
  root : Node
  isComplete : Bool

/-- Reads a document. Two steps of the reading go into one nesting at most. -/
def Reading.ofText (s : List Char) : Reading :=
  let tokens := Token.ofText s
  let (root, rest) := Node.read (2 * tokens.length + 1) tokens
  ⟨root, rest.isEmpty⟩

end Json

end StepTemplate
