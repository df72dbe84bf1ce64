import StepTemplate.Text.Blank

namespace StepTemplate

/-!
# Replacing occurrences

Occurrences of a needle are found from left to right and do not overlap. Whether one is replaced
depends on the characters of the text next to it; a kept occurrence is passed over whole.
-/

namespace Text

/-- Replaces occurrences in the rest of a text. `before` is the character in front of the rest,
and the first `skip` characters of the rest belong to an occurrence already dealt with. -/
def replaceFrom (accept : Option Char → Option Char → Bool) (needle value : List Char) :
    Option Char → Nat → List Char → List Char
  | _, _, [] => []
  | _, skip + 1, c :: cs => replaceFrom accept needle value (some c) skip cs
  | before, 0, c :: cs =>
    if needle.isPrefixOf (c :: cs) then
      (if accept before ((c :: cs).drop needle.length).head? then value else needle) ++
        replaceFrom accept needle value (some c) (needle.length - 1) cs
    else
      c :: replaceFrom accept needle value (some c) 0 cs

@[simp] theorem replaceFrom_nil (accept : Option Char → Option Char → Bool)
    (needle value : List Char) (before : Option Char) (skip : Nat) :
    replaceFrom accept needle value before skip [] = [] := by
  cases skip <;> rfl

/-- Replaces `needle` by `value` where `accept` allows the two neighbours of the occurrence. The
empty needle occurs nowhere. -/
def replaceWhere (accept : Option Char → Option Char → Bool) (needle value s : List Char) :
    List Char :=
  if needle = [] then s else replaceFrom accept needle value none 0 s

@[simp] theorem replaceWhere_empty (accept : Option Char → Option Char → Bool)
    (value s : List Char) : replaceWhere accept [] value s = s := rfl

def replaceAll (needle value s : List Char) : List Char :=
  replaceWhere (fun _ _ => true) needle value s

/-- Whether an occurrence between these neighbours stands as a word of its own and is not called:
no word character touches it and no `(` follows. -/
def isWholeWord (before after : Option Char) : Bool :=
  !before.any isWordChar && !after.any isWordChar && after != some '('

def replaceWord (name value s : List Char) : List Char :=
  replaceWhere isWholeWord name value s

/-- Whether an entry between these neighbours fills its place in a parameter list. -/
def isWholeEntry (before after : Option Char) : Bool :=
  before.all (fun c => c == '(' || c == ',' || isBlank c) &&
    after.all (fun c => c == ')' || c == ',' || isBlank c)

/-- Replaces `entry` wherever it is a whole entry of a parameter list. -/
def replaceEntry (entry value s : List Char) : List Char :=
  replaceWhere isWholeEntry entry value s

end Text

end StepTemplate
