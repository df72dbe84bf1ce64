import StepTemplate.Placeholder.Basic
import StepTemplate.Text.Bytes

namespace StepTemplate

/-!
# Finding the placeholders of a text

A text is cut into its placeholders and the characters between them. The search goes from left to
right and goes on behind a placeholder that it has found.
-/

namespace Placeholder

open Text

/-- A placeholder of a text, or a character outside of all placeholders. -/
inductive Piece where
  | char (c : Char)
  | placeholder (w : Written)
  deriving DecidableEq, Repr

def Piece.text : Piece → List Char
  | .char c => [c]
  | .placeholder w => w.text

/-- Cuts the rest of a text, whose first `skip` characters belong to a placeholder already cut. -/
def cutFrom : Nat → List Char → List Piece
  | _, [] => []
  | skip + 1, _ :: cs => cutFrom skip cs
  | 0, c :: cs =>
    match Written.leading? (c :: cs) with
    | some w => .placeholder w :: cutFrom (w.text.length - 1) cs
    | none => .char c :: cutFrom 0 cs

/-- Cuts a text into placeholders and the characters between them. -/
def cut (s : List Char) : List Piece :=
  cutFrom 0 s

@[simp] theorem cutFrom_nil (skip : Nat) : cutFrom skip [] = [] := by
  cases skip <;> rfl

@[simp] theorem cut_nil : cut [] = [] := rfl

theorem cutFrom_eq_drop (skip : Nat) (s : List Char) : cutFrom skip s = cut (s.drop skip) := by
  induction s generalizing skip with
  | nil => simp
  | cons c cs ih =>
    cases skip with
    | zero => rfl
    | succ skip => simpa [cutFrom] using ih skip

/-- The bytes from `start` up to, not including, `stop`, and the placeholder written there. -/
structure Span where
  start : Nat
  stop : Nat
  placeholder : Placeholder
  deriving DecidableEq, Repr

/-- The spans of the placeholders among pieces that start at byte `offset`. -/
def spansFrom : Nat → List Piece → List Span
  | _, [] => []
  | offset, .char c :: ps => spansFrom (offset + c.utf8Size) ps
  | offset, .placeholder w :: ps =>
    ⟨offset, offset + byteLength w.text, w.references⟩ ::
      spansFrom (offset + byteLength w.text) ps

/-- The placeholders of a text with the bytes they take up, in order. -/
def spans (text : String) : List Span :=
  spansFrom 0 (cut text.toList)

def scan (text : String) : List Placeholder :=
  (spans text).map Span.placeholder

/-- Whether a text has a placeholder anywhere. -/
def occursIn : List Char → Bool
  | [] => false
  | c :: cs => (Written.leading? (c :: cs)).isSome || occursIn cs

end Placeholder

end StepTemplate
