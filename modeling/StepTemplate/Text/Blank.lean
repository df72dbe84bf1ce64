namespace StepTemplate

/-!
# Blank characters and trimming

The characters of the White_Space property, and stripping a class of characters from both ends
of a text.
-/

namespace Text

/-- The White_Space property of Unicode. -/
def isBlank (c : Char) : Bool :=
  let n := c.toNat
  (9 ≤ n && n ≤ 13) || n == 0x20 || n == 0x85 || n == 0xA0 || n == 0x1680 ||
    (0x2000 ≤ n && n ≤ 0x200A) || n == 0x2028 || n == 0x2029 || n == 0x202F || n == 0x205F ||
    n == 0x3000

/-- Removes the characters of class `p` from both ends. -/
def strip (p : Char → Bool) (s : List Char) : List Char :=
  ((s.dropWhile p).reverse.dropWhile p).reverse

@[simp] theorem strip_nil (p : Char → Bool) : strip p [] = [] := rfl

theorem strip_eq_self {p : Char → Bool} {s : List Char}
    (hhead : ∀ c ∈ s.head?, p c = false) (hlast : ∀ c ∈ s.getLast?, p c = false) :
    strip p s = s := by
  have drop_self : ∀ t : List Char, (∀ c ∈ t.head?, p c = false) → t.dropWhile p = t := by
    intro t ht
    cases t with
    | nil => rfl
    | cons c t => simp [ht c (by simp)]
  rw [strip, drop_self s hhead, drop_self s.reverse (by simpa using hlast), List.reverse_reverse]

def trim (s : List Char) : List Char :=
  strip isBlank s

@[simp] theorem trim_nil : trim [] = [] := rfl

/-- Letters and digits of ASCII and the underscore. -/
def isWordChar (c : Char) : Bool :=
  c.isAlphanum || c == '_'

end Text

end StepTemplate
