import StepTemplate.Text.Pieces

namespace StepTemplate

/-!
# Placeholders

A placeholder is written `{{main}}` or `{{main(p, q)}}`. The parentheses are optional and need not
balance, so the written form keeps their number.
-/

/-- The references of a placeholder: the main one, then the entries of its parameter list. -/
structure Placeholder where
  main : List Char
  parameters : List (List Char)
  deriving DecidableEq, Repr

namespace Placeholder

open Text

def isMainChar (c : Char) : Bool :=
  isWordChar c || c == '.' || c == '[' || c == ']'

def isListChar (c : Char) : Bool :=
  isMainChar c || c == '$' || c == '\x27' || c == ',' || isBlank c

/-- A placeholder as it is written in a text. -/
structure Written where
  main : List Char
  opening : Nat
  list : List Char
  closing : Nat
  deriving DecidableEq, Repr

namespace Written

def text (w : Written) : List Char :=
  '{' :: '{' :: (w.main ++ List.replicate w.opening '(' ++ w.list ++
    List.replicate w.closing ')' ++ ['}', '}'])

def references (w : Written) : Placeholder :=
  ⟨w.main, commaList w.list⟩

theorem two_le_length_text (w : Written) : 2 ≤ w.text.length := by
  simp [text]

/-- The placeholder at the head of a text. Each part reaches as far as its characters go: no
other split of the text could end at a closing pair of braces. -/
def leading? : List Char → Option Written
  | '{' :: '{' :: s =>
    let afterMain := s.dropWhile isMainChar
    let afterOpening := afterMain.dropWhile (· == '(')
    let afterList := afterOpening.dropWhile isListChar
    let afterClosing := afterList.dropWhile (· == ')')
    if s.takeWhile isMainChar != [] && ['}', '}'].isPrefixOf afterClosing then
      some
        { main := s.takeWhile isMainChar
          opening := (afterMain.takeWhile (· == '(')).length
          list := afterOpening.takeWhile isListChar
          closing := (afterList.takeWhile (· == ')')).length }
    else none
  | _ => none

end Written

end Placeholder

end StepTemplate
