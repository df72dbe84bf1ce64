import StepTemplate.Proofs.Group.Separation

namespace StepTemplate

/-!
# Invocation keys with one suffix

The suffix of an invocation is its key with the first character in uppercase. Where this character
becomes a single one, keys of one suffix differ at most in the case of their first characters. But
some characters become several, and the further ones may just as well be written out in another
key.
-/

namespace Text

variable {a b : List Char}

theorem uppercase_ne_nil (c : Char) : uppercase c ≠ [] := by
  have hforms : ∀ e ∈ specialUppercase, e.2 ≠ [] := by decide
  rw [uppercase]
  split
  · next form hform =>
    obtain ⟨front, back, htable, -⟩ := List.lookup_eq_some_iff.mp hform
    have hne := hforms (c.toNat, form) (by simp [htable])
    simpa using hne
  · split <;> simp

/-- The uppercase form of the first character of `a` begins with that of the first character of `b`
and goes on with characters that stand behind it in `b`. -/
def SpelledOut (a b : List Char) : Prop :=
  ∃ c d t s, t ≠ [] ∧ uppercase c = uppercase d ++ t ∧ a = c :: s ∧ b = d :: (t ++ s)

theorem SpelledOut.length_lt (h : SpelledOut a b) : a.length < b.length := by
  obtain ⟨c, d, t, s, ht, -, rfl, rfl⟩ := h
  have hpos := List.length_pos_iff.mpr ht
  simp only [List.length_cons, List.length_append]
  omega

theorem SpelledOut.exists_long_uppercase (h : SpelledOut a b) :
    ∃ c ∈ a.head?, 1 < (uppercase c).length := by
  obtain ⟨c, d, t, s, ht, hc, rfl, -⟩ := h
  have ht' := List.length_pos_iff.mpr ht
  have hd := List.length_pos_iff.mpr (uppercase_ne_nil d)
  refine ⟨c, rfl, ?_⟩
  rw [hc, List.length_append]
  omega

theorem SpelledOut.capitalize_eq (h : SpelledOut a b) : capitalize a = capitalize b := by
  obtain ⟨c, d, t, s, -, hc, rfl, rfl⟩ := h
  rw [capitalize_cons, capitalize_cons, hc, List.append_assoc]

theorem capitalize_eq_iff : capitalize a = capitalize b ↔
    (a = b ∨ ∃ c d s, uppercase c = uppercase d ∧ a = c :: s ∧ b = d :: s) ∨
      SpelledOut a b ∨ SpelledOut b a := by
  constructor
  · intro h
    cases a with
    | nil =>
        cases b with
        | nil => exact Or.inl (Or.inl rfl)
        | cons d y => simp [uppercase_ne_nil] at h
    | cons c x =>
        cases b with
        | nil => simp [uppercase_ne_nil] at h
        | cons d y =>
            rw [capitalize_cons, capitalize_cons] at h
            -- one of the two uppercase forms goes on where the other one ends
            rcases List.append_eq_append_iff.mp h with ⟨t, hd, rfl⟩ | ⟨t, hc, rfl⟩
            · by_cases ht : t = []
              · subst ht
                exact Or.inl (Or.inr ⟨c, d, y, by simpa using hd.symm, rfl, rfl⟩)
              · exact Or.inr (Or.inr ⟨d, c, t, y, ht, hd, rfl, rfl⟩)
            · by_cases ht : t = []
              · subst ht
                exact Or.inl (Or.inr ⟨c, d, x, by simpa using hc, rfl, rfl⟩)
              · exact Or.inr (Or.inl ⟨c, d, t, x, ht, hc, rfl, rfl⟩)
  · rintro ((rfl | ⟨c, d, s, hcd, rfl, rfl⟩) | h | h)
    · rfl
    · rw [capitalize_cons, capitalize_cons, hcd]
    · exact h.capitalize_eq
    · exact h.capitalize_eq.symm

end Text

namespace Step

open Text

variable {key a b : String}

/-- The keys are equal, or they differ in their first characters alone and these have one uppercase
form. -/
def AgreeUpToCase (a b : String) : Prop :=
  a = b ∨ ∃ c d s, uppercase c = uppercase d ∧ a.toList = c :: s ∧ b.toList = d :: s

theorem AgreeUpToCase.length_eq (h : AgreeUpToCase a b) : a.length = b.length := by
  rcases h with rfl | ⟨c, d, s, -, ha, hb⟩
  · rfl
  · rw [← String.length_toList, ← String.length_toList, ha, hb, List.length_cons, List.length_cons]

/-- Two invocation keys give a step key one suffix if they differ at most in the case of their first
characters, or if the first character of one has an uppercase form that is in part written out in
the other. The keys then have different lengths, so keys of one length collide by the case of their
first characters alone, and so do keys whose first characters have uppercase forms of a single
character. -/
theorem namespacedKey_collision (key a b : String) :
    (namespacedKey key a = namespacedKey key b ↔
      AgreeUpToCase a b ∨ SpelledOut a.toList b.toList ∨ SpelledOut b.toList a.toList) ∧
    (namespacedKey key a = namespacedKey key b → (AgreeUpToCase a b ↔ a.length = b.length)) ∧
    ((∀ c ∈ a.toList.head?, (uppercase c).length = 1) →
      (∀ d ∈ b.toList.head?, (uppercase d).length = 1) →
      namespacedKey key a = namespacedKey key b → AgreeUpToCase a b) := by
  have hiff : namespacedKey key a = namespacedKey key b ↔
      AgreeUpToCase a b ∨ SpelledOut a.toList b.toList ∨ SpelledOut b.toList a.toList := by
    rw [← String.toList_inj, toList_namespacedKey, toList_namespacedKey, List.append_cancel_left_eq,
      capitalize_eq_iff, String.toList_inj]
    rfl
  refine ⟨hiff, fun h => ⟨AgreeUpToCase.length_eq, fun hlength => ?_⟩, fun ha hb h => ?_⟩
  · rw [← String.length_toList, ← String.length_toList] at hlength
    rcases hiff.mp h with hcase | hspelled | hspelled
    · exact hcase
    · exact absurd hlength (Nat.ne_of_lt hspelled.length_lt)
    · exact absurd hlength (Nat.ne_of_gt hspelled.length_lt)
  · rcases hiff.mp h with hcase | hspelled | hspelled
    · exact hcase
    · obtain ⟨c, hc, hlong⟩ := hspelled.exists_long_uppercase
      exact absurd (ha c hc) (Nat.ne_of_gt hlong)
    · obtain ⟨c, hc, hlong⟩ := hspelled.exists_long_uppercase
      exact absurd (hb c hc) (Nat.ne_of_gt hlong)

theorem namespacedKey_collision_login :
    (∀ c ∈ "login".toList.head?, (uppercase c).length = 1) ∧
    (∀ d ∈ "Login".toList.head?, (uppercase d).length = 1) ∧
    namespacedKey "click" "login" = namespacedKey "click" "Login" ∧
    AgreeUpToCase "login" "Login" ∧
    namespacedKey "click" "ßx" = namespacedKey "click" "SSx" ∧
    (AgreeUpToCase "ßx" "SSx" ↔ "ßx".length = "SSx".length) := by
  have hlower : ∀ c ∈ "login".toList.head?, (uppercase c).length = 1 := by
    intro c hc
    obtain rfl : 'l' = c := Option.some.inj hc
    decide
  have hupper : ∀ d ∈ "Login".toList.head?, (uppercase d).length = 1 := by
    intro d hd
    obtain rfl : 'L' = d := Option.some.inj hd
    decide
  have hlogin : namespacedKey "click" "login" = namespacedKey "click" "Login" := by decide
  have hsharp : namespacedKey "click" "ßx" = namespacedKey "click" "SSx" := by decide
  exact ⟨hlower, hupper, hlogin,
    (namespacedKey_collision "click" "login" "Login").2.2 hlower hupper hlogin, hsharp,
    (namespacedKey_collision "click" "ßx" "SSx").2.1 hsharp⟩

/-- The letter `ß` is `SS` in uppercase. -/
theorem not_agreeUpToCase_sharp :
    namespacedKey "click" "ßx" = namespacedKey "click" "SSx" ∧ ¬ AgreeUpToCase "ßx" "SSx" := by
  refine ⟨by decide, ?_⟩
  rintro (h | ⟨c, d, s, -, hs, ht⟩)
  · exact absurd h (by decide)
  · have hx : ['x'] = s := (List.cons_eq_cons.mp hs).2
    have hSx : ['S', 'x'] = s := (List.cons_eq_cons.mp ht).2
    exact absurd (hx.trans hSx.symm) (by decide)

end Step

end StepTemplate
