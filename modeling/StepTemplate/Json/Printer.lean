import StepTemplate.Json.Node

namespace StepTemplate

/-!
# Writing JSON

A tree is written without any blanks, or spread over lines with an indentation of two. A broken
part of a tree is written as nothing.
-/

namespace Json

/-- A text with its quotes. -/
def writeText : Option String → List Char
  | none => []
  | some s => Quoted.write s.toList

mutual

def Node.compact : Node → List Char
  | .null => ['n', 'u', 'l', 'l']
  | .boolean true => ['t', 'r', 'u', 'e']
  | .boolean false => ['f', 'a', 'l', 's', 'e']
  | .number n => n.write
  | .text s => writeText s
  | .array items => '[' :: items.compact
  | .object members => '\x7b' :: members.compact
  | .broken => []

/-- Writes items and the closing bracket. -/
def Items.compact : Items → List Char
  | .closed => [']']
  | .cut => []
  | .cons x .closed => x.compact ++ [']']
  | .cons x xs => x.compact ++ ',' :: xs.compact

/-- Writes members and the closing brace. -/
def Members.compact : Members → List Char
  | .closed => ['\x7d']
  | .cut => []
  | .cons k v .closed => k.compact ++ ':' :: (v.compact ++ ['\x7d'])
  | .cons k v ms => k.compact ++ ':' :: (v.compact ++ ',' :: ms.compact)

end

/-- The start of a line at the given depth. -/
def newLine (depth : Nat) : List Char :=
  '\n' :: List.replicate (2 * depth) ' '

mutual

def Node.pretty (depth : Nat) : Node → List Char
  | .array .closed => ['[', ']']
  | .array items => '[' :: items.pretty (depth + 1)
  | .object .closed => ['\x7b', '\x7d']
  | .object members => '\x7b' :: members.pretty (depth + 1)
  | .null => ['n', 'u', 'l', 'l']
  | .boolean true => ['t', 'r', 'u', 'e']
  | .boolean false => ['f', 'a', 'l', 's', 'e']
  | .number n => n.write
  | .text s => writeText s
  | .broken => []

/-- Writes items, each on lines of its own, and the closing bracket. -/
def Items.pretty (depth : Nat) : Items → List Char
  | .closed => newLine (depth - 1) ++ [']']
  | .cut => []
  | .cons x .closed => newLine depth ++ x.pretty depth ++ newLine (depth - 1) ++ [']']
  | .cons x xs => newLine depth ++ x.pretty depth ++ ',' :: xs.pretty depth

/-- Writes members, each on lines of its own, and the closing brace. -/
def Members.pretty (depth : Nat) : Members → List Char
  | .closed => newLine (depth - 1) ++ ['\x7d']
  | .cut => []
  | .cons k v .closed =>
    newLine depth ++ k.pretty depth ++ ':' :: ' ' :: (v.pretty depth ++ newLine (depth - 1) ++
      ['\x7d'])
  | .cons k v ms =>
    newLine depth ++ k.pretty depth ++ ':' :: ' ' :: (v.pretty depth ++ ',' :: ms.pretty depth)

end

end Json

end StepTemplate
