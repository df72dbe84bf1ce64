namespace StepTemplate

/-!
# Bytes of a text

Places in a text are counted in bytes of its UTF-8 form.
-/

namespace Text

def byteLength : List Char → Nat
  | [] => 0
  | c :: cs => c.utf8Size + byteLength cs

@[simp] theorem byteLength_nil : byteLength [] = 0 := rfl

@[simp] theorem byteLength_append (s t : List Char) :
    byteLength (s ++ t) = byteLength s + byteLength t := by
  induction s with
  | nil => simp
  | cons c s ih => simp [byteLength, ih, Nat.add_assoc]

end Text

end StepTemplate
