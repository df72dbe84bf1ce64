import StepTemplate.Step

namespace StepTemplate

/-!
# The order of steps

Steps without a link keep their order. A linked step goes directly before or behind its target,
which may be a linked step itself; steps whose target cannot be reached come last.
-/

/-- A way to order the steps of a map. -/
inductive Sequencing where
  /-- As declared, whatever the links say. -/
  | declared
  /-- Each linked step beside its target. -/
  | linked
  deriving DecidableEq, Repr

namespace Sequencing

/-- The index at which a step goes among steps already placed, if its target is among them. -/
def position? (placed : List Step) (s : Step) : Option Nat := do
  let target ← s.link
  let i ← placed.findIdx? (·.key == target)
  return if s.offset ≤ 0 then i else i + 1

/-- Places the waiting steps whose turn comes in one pass: the steps placed after it, and the steps
that still wait. -/
def pass : List Step → List Step → List Step × List Step
  | placed, [] => (placed, [])
  | placed, s :: waiting =>
    match position? placed s with
    | some i => pass (placed.insertIdx i s) waiting
    | none =>
      let (placed, left) := pass placed waiting
      (placed, s :: left)

theorem length_pass_le (placed waiting : List Step) :
    (pass placed waiting).2.length ≤ waiting.length := by
  induction waiting generalizing placed with
  | nil => simp [pass]
  | cons s waiting ih =>
    simp only [pass]
    split
    · exact Nat.le_succ_of_le (ih _)
    · simpa using ih placed

/-- Runs passes until one of them places nothing. -/
def place (placed waiting : List Step) : List Step :=
  if (pass placed waiting).2.length < waiting.length then
    place (pass placed waiting).1 (pass placed waiting).2
  else
    (pass placed waiting).1 ++ (pass placed waiting).2
termination_by waiting.length

def sequenceLinked (steps : List Step) : List Step :=
  place (steps.filter (·.link.isNone)) (steps.filter (·.link.isSome))

/-- The steps of a map in their final order. -/
def sequence (mode : Sequencing) (steps : OrderedMap String Step) : List Step :=
  match mode with
  | declared => steps.values
  | linked => sequenceLinked steps.values

end Sequencing

end StepTemplate
