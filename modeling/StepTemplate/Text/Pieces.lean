import StepTemplate.Text.Blank

namespace StepTemplate

/-!
# Pieces of a text between separators

`pieces` keeps every piece, the empty ones too; `commaList` reads the trimmed entries of a comma
list and drops blank ones.
-/

namespace Text

/-- The pieces of a text between the occurrences of `sep`; there is always at least one. -/
def pieces (sep : Char) : List Char → List (List Char)
  | [] => [[]]
  | c :: cs =>
    if c = sep then [] :: pieces sep cs
    else
      match pieces sep cs with
      | [] => [[c]]
      | p :: ps => (c :: p) :: ps

@[simp] theorem pieces_nil (sep : Char) : pieces sep [] = [[]] := rfl

theorem pieces_ne_nil (sep : Char) (s : List Char) : pieces sep s ≠ [] := by
  cases s with
  | nil => simp [pieces]
  | cons c cs =>
    by_cases h : c = sep
    · simp [pieces, h]
    · simp only [pieces, h, if_false]
      split <;> simp

theorem pieces_sep (sep : Char) (s : List Char) :
    pieces sep (sep :: s) = [] :: pieces sep s := by
  simp [pieces]

/-- The trimmed entries of a comma list, without the blank ones. -/
def commaList (s : List Char) : List (List Char) :=
  ((pieces ',' s).map trim).filter (· ≠ [])

@[simp] theorem commaList_nil : commaList [] = [] := rfl

theorem ne_nil_of_mem_commaList {s p : List Char} (h : p ∈ commaList s) : p ≠ [] := by
  simpa using (List.mem_filter.mp h).2

end Text

end StepTemplate
