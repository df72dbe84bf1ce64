import StepTemplate.Proofs.Text.Occurrences

namespace StepTemplate

/-!
# The words of a text

A text is cut into its words, the longest stretches of word characters, and the other characters
between them. Replacing a name as a word looks for occurrences and passes over those that it keeps;
it comes to the same as replacing the words that equal the name.
-/

namespace Text

/-- The words of a text in order. -/
def words : List Char → List (List Char)
  | [] => []
  | c :: s =>
    if isWordChar c then (c :: s.takeWhile isWordChar) :: words (s.dropWhile isWordChar)
    else words s
termination_by s => s.length
decreasing_by
  · have := (List.dropWhile_suffix (l := s) isWordChar).length_le
    simp only [List.length_cons]
    omega
  · simp

/-- Replaces each word by what `f` gives for it, unless the word is called. -/
def mapWords (f : List Char → Option (List Char)) : List Char → List Char
  | [] => []
  | c :: s =>
    if isWordChar c then
      (if (s.dropWhile isWordChar).head? = some '(' then c :: s.takeWhile isWordChar
        else (f (c :: s.takeWhile isWordChar)).getD (c :: s.takeWhile isWordChar)) ++
        mapWords f (s.dropWhile isWordChar)
    else c :: mapWords f s
termination_by s => s.length
decreasing_by
  · have := (List.dropWhile_suffix (l := s) isWordChar).length_le
    simp only [List.length_cons]
    omega
  · simp

/-- A whole word: it is not empty and has word characters only. -/
structure IsWord (w : List Char) : Prop where
  ne_nil : w ≠ []
  chars : ∀ c ∈ w, isWordChar c = true

instance (w : List Char) : Decidable (IsWord w) :=
  decidable_of_iff (w ≠ [] ∧ w.all isWordChar = true)
    ⟨fun h => ⟨h.1, List.all_eq_true.mp h.2⟩, fun h => ⟨h.ne_nil, List.all_eq_true.mpr h.chars⟩⟩

variable {f g : List Char → Option (List Char)} {w s rest : List Char} {c : Char}

/-- Induction along the words of a text and the characters between them. -/
@[elab_as_elim] theorem word_induction {motive : List Char → Prop} (nil : motive [])
    (word : ∀ w rest, IsWord w → StopsAt isWordChar rest → motive rest → motive (w ++ rest))
    (char : ∀ c s, isWordChar c = false → motive s → motive (c :: s)) (s : List Char) :
    motive s := by
  induction hn : s.length using Nat.strongRecOn generalizing s with
  | ind n ih =>
      subst hn
      cases s with
      | nil => exact nil
      | cons c s =>
          cases hc : isWordChar c with
          | false => exact char c s hc (ih s.length (by simp) s rfl)
          | true =>
              have hlt : (s.dropWhile isWordChar).length < (c :: s).length := by
                have := (List.dropWhile_suffix (l := s) isWordChar).length_le
                simp only [List.length_cons]
                omega
              have hword : IsWord (c :: s.takeWhile isWordChar) := by
                refine ⟨by simp, fun d hd => ?_⟩
                rcases List.mem_cons.mp hd with rfl | hd
                · exact hc
                · exact List.mem_takeWhile_imp hd
              have hrest := word _ _ hword (stopsAt_dropWhile isWordChar s) (ih _ hlt _ rfl)
              rwa [List.cons_append, List.takeWhile_append_dropWhile] at hrest

@[simp] theorem words_nil : words [] = [] := by
  rw [words]

theorem words_cons (hc : isWordChar c = false) (s : List Char) : words (c :: s) = words s := by
  simp [words, hc]

theorem words_append (hw : IsWord w) (hrest : StopsAt isWordChar rest) :
    words (w ++ rest) = w :: words rest := by
  obtain ⟨c, t, rfl⟩ := List.exists_cons_of_ne_nil hw.ne_nil
  have ht : ∀ d ∈ t, isWordChar d = true := fun d hd => hw.chars d (List.mem_cons_of_mem c hd)
  simp [words, hw.chars c (by simp), takeWhile_append_of_stops ht hrest,
    dropWhile_append_of_stops ht hrest]

theorem words_of_isWord (hw : IsWord w) : words w = [w] := by
  have h := words_append hw stopsAt_nil
  rwa [List.append_nil, words_nil] at h

@[simp] theorem mapWords_nil : mapWords f [] = [] := by
  rw [mapWords]

theorem mapWords_cons (hc : isWordChar c = false) (s : List Char) :
    mapWords f (c :: s) = c :: mapWords f s := by
  simp [mapWords, hc]

theorem mapWords_append (hw : IsWord w) (hrest : StopsAt isWordChar rest) :
    mapWords f (w ++ rest) =
      (if rest.head? = some '(' then w else (f w).getD w) ++ mapWords f rest := by
  obtain ⟨c, t, rfl⟩ := List.exists_cons_of_ne_nil hw.ne_nil
  have ht : ∀ d ∈ t, isWordChar d = true := fun d hd => hw.chars d (List.mem_cons_of_mem c hd)
  simp only [List.cons_append, mapWords, hw.chars c (by simp), if_true,
    takeWhile_append_of_stops ht hrest, dropWhile_append_of_stops ht hrest]

theorem head?_mapWords (hs : StopsAt isWordChar s) : (mapWords f s).head? = s.head? := by
  cases s with
  | nil => simp
  | cons c s => simp [mapWords_cons (stopsAt_cons.mp hs)]

theorem stopsAt_mapWords (hs : StopsAt isWordChar s) : StopsAt isWordChar (mapWords f s) := by
  rw [StopsAt, head?_mapWords hs]
  exact hs

/-- The words of a text are the stretches of word characters that no word character touches. -/
theorem mem_words_iff : w ∈ words s ↔ IsWord w ∧ ∃ a b, s = a ++ (w ++ b) ∧
    StopsAt isWordChar a.reverse ∧ StopsAt isWordChar b := by
  induction s using word_induction with
  | nil =>
      simp only [words_nil, List.not_mem_nil, false_iff]
      rintro ⟨hw, a, b, h, -⟩
      simp [hw.ne_nil] at h
  | word v rest hv hrest ih =>
      have hv' : ¬ StopsAt isWordChar v.reverse :=
        not_stopsAt_of_forall (by simp [hv.ne_nil]) (by simpa using hv.chars)
      rw [words_append hv hrest, List.mem_cons, ih]
      constructor
      · rintro (rfl | ⟨hw, a, b, rfl, ha, hb⟩)
        · exact ⟨hv, [], rest, rfl, by simp, hrest⟩
        · have hne : a ≠ [] := by
            rintro rfl
            have hstop : StopsAt isWordChar (w ++ b) := hrest
            exact not_stopsAt_of_forall hw.ne_nil hw.chars hstop.of_append
          refine ⟨hw, v ++ a, b, by simp, ?_, hb⟩
          rw [List.reverse_append]
          exact ha.append_of_ne_nil (by simpa using hne)
      · rintro ⟨hw, a, b, h, ha, hb⟩
        obtain ⟨t, rfl, rfl⟩ | ⟨t, rfl, ht⟩ := List.append_eq_append_iff.mp h
        · rw [List.reverse_append] at ha
          exact Or.inr ⟨hw, t, b, rfl, ha.of_append, hb⟩
        · have hnil : a = [] := by
            by_contra hne
            have hword : ∀ c ∈ a.reverse, isWordChar c = true := fun c hc =>
              hv.chars c (List.mem_append_left t (List.mem_reverse.mp hc))
            exact not_stopsAt_of_forall (by simpa using hne) hword ha
          subst hnil
          left
          exact (append_inj_of_stops hv.chars hrest hw.chars hb h).1.symm
  | char c s hc ih =>
      rw [words_cons hc, ih]
      constructor
      · rintro ⟨hw, a, b, rfl, ha, hb⟩
        refine ⟨hw, c :: a, b, rfl, ?_, hb⟩
        rw [List.reverse_cons]
        exact ha.append (stopsAt_cons.mpr hc)
      · rintro ⟨hw, a, b, h, ha, hb⟩
        cases a with
        | nil =>
            obtain ⟨d, t, rfl⟩ := List.exists_cons_of_ne_nil hw.ne_nil
            obtain ⟨rfl, -⟩ := List.cons_eq_cons.mp h
            simp [hw.chars c (by simp)] at hc
        | cons d a =>
            obtain ⟨rfl, rfl⟩ := List.cons_eq_cons.mp h
            refine ⟨hw, a, b, rfl, ?_, hb⟩
            rw [List.reverse_cons] at ha
            exact ha.of_append

theorem isBlank_of_isWordChar (h : isWordChar c = true) : isBlank c = false := by
  have hrange : 48 ≤ c.toNat ∧ c.toNat ≤ 122 := by
    delta isWordChar Char.isAlphanum Char.isAlpha Char.isUpper Char.isLower Char.isDigit at h
    simp only [Bool.or_eq_true, Bool.and_eq_true, decide_eq_true_eq, beq_iff_eq, ge_iff_le,
      UInt32.le_iff_toNat_le] at h
    rcases h with ((hupper | hlower) | hdigit) | rfl
    · exact ⟨(by decide : 48 ≤ 65).trans hupper.1, hupper.2.trans (by decide)⟩
    · exact ⟨(by decide : 48 ≤ 97).trans hlower.1, hlower.2⟩
    · exact ⟨hdigit.1, hdigit.2.trans (by decide)⟩
    · decide
  simp [isBlank]
  omega

/-! ## Replacing words of what replacing words has given -/

/-- A value none of whose words is replaced is copied, also before more text. -/
theorem mapWords_append_of_inert (h : ∀ w ∈ words s, f w = none)
    (hrest : StopsAt isWordChar rest) : mapWords f (s ++ rest) = s ++ mapWords f rest := by
  induction s using word_induction with
  | nil => rfl
  | word w t hw ht ih =>
      have hnone : f w = none := h w (by simp [words_append hw ht])
      have hrest' := ih fun v hv => h v (by simp [words_append hw ht, hv])
      rw [List.append_assoc, mapWords_append hw (ht.append hrest), hrest', hnone]
      simp
  | char c t hc ih =>
      have hrest' := ih fun v hv => h v (by rwa [words_cons hc])
      rw [List.cons_append, mapWords_cons hc, hrest', List.cons_append]

/-- Two replacements in turn are one, if the second leaves the words that the first one puts in. -/
theorem mapWords_mapWords
    (h : ∀ w v, f w = some v → ∀ u ∈ words v, g u = none) (s : List Char) :
    mapWords g (mapWords f s) = mapWords (fun w => (f w).or (g w)) s := by
  induction s using word_induction with
  | nil => simp
  | word w rest hw hrest ih =>
      have hstop := stopsAt_mapWords (f := f) hrest
      rw [mapWords_append hw hrest, mapWords_append hw hrest, ← ih]
      by_cases hcall : rest.head? = some '('
      · rw [if_pos hcall, if_pos hcall, mapWords_append hw hstop, head?_mapWords hrest,
          if_pos hcall]
      · rw [if_neg hcall, if_neg hcall]
        cases hf : f w with
        | some v => simp [mapWords_append_of_inert (h w v hf) hstop]
        | none =>
            simp [mapWords_append hw hstop, head?_mapWords hrest, hcall]
  | char c s hc ih => rw [mapWords_cons hc, mapWords_cons hc, mapWords_cons hc, ih]

/-! ## Replacing a name as a word -/

variable {name value : List Char} {before after : Option Char}

theorem not_isWholeWord_of_before (h : before.any isWordChar = true) :
    isWholeWord before after = false := by
  simp [isWholeWord, h]

theorem not_isWholeWord_of_after (h : after.any isWordChar = true) :
    isWholeWord before after = false := by
  simp [isWholeWord, h]

theorem isWholeWord_of_stops (hbefore : before.any isWordChar = false)
    (hs : StopsAt isWordChar s) :
    isWholeWord before s.head? = (s.head? != some '(') := by
  cases s with
  | nil => simp [isWholeWord, hbefore]
  | cons c s => simp [isWholeWord, hbefore, stopsAt_cons.mp hs]

theorem isWholeWord_of_not_isWordChar (hbefore : ∀ c ∈ before, isWordChar c = false)
    (hafter : ∀ c ∈ after, isWordChar c = false ∧ c ≠ '(') : isWholeWord before after = true := by
  have hb : before.any isWordChar = false := by
    cases before with
    | none => rfl
    | some c => exact hbefore c rfl
  cases after with
  | none => simp [isWholeWord, hb]
  | some c =>
      obtain ⟨hc, hcall⟩ := hafter c rfl
      simp [isWholeWord, hb, hc, hcall]

/-- A character that is in no word and does not call one might as well be the end of the text. -/
theorem isBorder_isWholeWord (hc : isWordChar c = false) (hcall : c ≠ '(') :
    IsBorder isWholeWord c := by
  have hne : (some c != some '(') = true := by simpa using hcall
  constructor
  · intro before
    simp only [isWholeWord, Option.any_some, Option.any_none, hc, hne]
    rfl
  · intro after
    simp [isWholeWord, hc]

theorem IsWord.notMem_of_isWholeWord (hname : IsWord name)
    (h : isWholeWord (some c) after = true) : c ∉ name := by
  intro hmem
  have hchar : (some c).any isWordChar = true := hname.chars c hmem
  rw [not_isWholeWord_of_before hchar] at h
  exact Bool.false_ne_true h

/-- What stands as a whole word is one of the words. -/
theorem mem_words_of_isWholeWord {a b : List Char} (hw : IsWord w)
    (h : isWholeWord (a.getLast?.or before) (b.head?.or after) = true) :
    w ∈ words (a ++ (w ++ b)) := by
  simp only [isWholeWord, Bool.and_eq_true, Bool.not_eq_true'] at h
  obtain ⟨⟨hbefore, hafter⟩, -⟩ := h
  refine mem_words_iff.mpr ⟨hw, a, b, rfl, ?_, ?_⟩
  · intro c hc
    rw [List.head?_reverse] at hc
    simpa [Option.mem_def.mp hc] using hbefore
  · intro c hc
    simpa [Option.mem_def.mp hc] using hafter

theorem IsWord.notMem (hw : IsWord w) (hc : isWordChar c = false) : c ∉ w := by
  intro hmem
  simp [hw.chars c hmem] at hc

theorem IsWord.any_getLast? (hw : IsWord w) : w.getLast?.any isWordChar = true := by
  rw [List.getLast?_eq_some_getLast hw.ne_nil]
  exact hw.chars _ (List.getLast_mem hw.ne_nil)

theorem IsWord.not_prefix (hw : IsWord w) (hs : StopsAt isWordChar s) : ¬ w <+: s := by
  rintro ⟨t, rfl⟩
  exact not_stopsAt_of_forall hw.ne_nil hw.chars hs.of_append

/-- In front of a character that cannot begin an occurrence, what came before does not matter. -/
theorem replaceFrom_of_stops (hname : IsWord name) (hs : StopsAt isWordChar s) :
    replaceFrom isWholeWord name value before 0 s =
      replaceFrom isWholeWord name value none 0 s := by
  cases s with
  | nil => rfl
  | cons c s =>
      have hocc := hname.not_prefix hs
      rw [replaceFrom_cons _ hocc, replaceFrom_cons _ hocc]

/-- An occurrence at the head of a stretch of word characters does not reach beyond it. -/
theorem exists_of_prefix_append {u : List Char} (hname : IsWord name)
    (hrest : StopsAt isWordChar rest) (h : name <+: u ++ rest) : ∃ u', u = name ++ u' := by
  obtain ⟨t, ht⟩ := h
  obtain ⟨u', hu, -⟩ | ⟨v, rfl, rfl⟩ := List.append_eq_append_iff.mp ht
  · exact ⟨u', hu⟩
  · cases v with
    | nil => exact ⟨[], by simp⟩
    | cons c v =>
        have hc := hname.chars c (by simp)
        rw [List.cons_append, stopsAt_cons] at hrest
        simp [hc] at hrest

/-- Within a word that is not the name nothing is replaced: an occurrence in it has a word
character next to it. -/
theorem replaceFrom_word_append {u : List Char} (hname : IsWord name)
    (hu : ∀ c ∈ u, isWordChar c = true) (hrest : StopsAt isWordChar rest)
    (h : before.any isWordChar = true ∨ u ≠ name) :
    replaceFrom isWholeWord name value before 0 (u ++ rest) =
      u ++ replaceFrom isWholeWord name value none 0 rest := by
  induction hn : u.length using Nat.strongRecOn generalizing u before with
  | ind n ih =>
      subst hn
      by_cases hocc : name <+: u ++ rest
      · obtain ⟨u', rfl⟩ := exists_of_prefix_append hname hrest hocc
        have hu' : ∀ c ∈ u', isWordChar c = true := fun c hc =>
          hu c (List.mem_append_right name hc)
        have hkeep : isWholeWord before (u' ++ rest).head? = false := by
          rcases h with h | h
          · exact not_isWholeWord_of_before h
          · obtain ⟨c, v, rfl⟩ := List.exists_cons_of_ne_nil (l := u') (by simpa using h)
            exact not_isWholeWord_of_after (by simpa using hu' c (by simp))
        have hlt : u'.length < (name ++ u').length := by
          have := List.length_pos_iff.mpr hname.ne_nil
          rw [List.length_append]
          omega
        rw [List.append_assoc, replaceFrom_occurrence _ hname.ne_nil, hkeep,
          ih _ hlt hu' (Or.inl hname.any_getLast?) rfl]
        simp
      · cases u with
        | nil => exact replaceFrom_of_stops hname hrest
        | cons c u =>
            have hc : (some c).any isWordChar = true := hu c (by simp)
            have hrec := ih u.length (by simp) (fun d hd => hu d (List.mem_cons_of_mem c hd))
              (Or.inl hc) rfl
            rw [List.cons_append] at hocc ⊢
            rw [replaceFrom_cons _ hocc, hrec, List.cons_append]

/-- From a place that no word character precedes, the words that equal the name are replaced. -/
theorem replaceFrom_eq_mapWords (hname : IsWord name) (hbefore : before.any isWordChar = false) :
    replaceFrom isWholeWord name value before 0 s =
      mapWords (fun w => if w = name then some value else none) s := by
  induction s using word_induction generalizing before with
  | nil => simp
  | word w rest hw hrest ih =>
      have hnone : (none : Option Char).any isWordChar = false := rfl
      rw [mapWords_append hw hrest, ← ih hnone]
      by_cases heq : w = name
      · subst heq
        rw [replaceFrom_occurrence _ hw.ne_nil, replaceFrom_of_stops hw hrest,
          isWholeWord_of_stops hbefore hrest]
        by_cases hcall : rest.head? = some '(' <;> simp [hcall]
      · rw [replaceFrom_word_append hname hw.chars hrest (Or.inr heq)]
        simp [heq]
  | char c s hc ih =>
      have hstop : StopsAt isWordChar (c :: s) := stopsAt_cons.mpr hc
      have hocc := hname.not_prefix hstop
      rw [mapWords_cons hc, replaceFrom_cons _ hocc, ih (by simpa using hc)]

/-- Replacing a name as a word replaces the words that equal it. -/
theorem replaceWord_eq_mapWords (hname : IsWord name) (value s : List Char) :
    replaceWord name value s = mapWords (fun w => if w = name then some value else none) s := by
  rw [replaceWord, replaceWhere, if_neg hname.ne_nil]
  exact replaceFrom_eq_mapWords hname rfl

theorem replaceWord_cons (hname : IsWord name) (hc : isWordChar c = false) (s : List Char) :
    replaceWord name value (c :: s) = c :: replaceWord name value s := by
  rw [replaceWord_eq_mapWords hname, replaceWord_eq_mapWords hname, mapWords_cons hc]

/-- A name at the head of a text is replaced, unless it is called. -/
theorem replaceWord_head (hname : IsWord name) (hrest : StopsAt isWordChar rest) :
    replaceWord name value (name ++ rest) =
      (if rest.head? = some '(' then name else value) ++ replaceWord name value rest := by
  have h := mapWords_append (f := fun w => if w = name then some value else none) hname hrest
  rwa [if_pos rfl, Option.getD_some, ← replaceWord_eq_mapWords hname,
    ← replaceWord_eq_mapWords hname] at h

/-- Between characters that are in no word and call none a text is searched as it is by itself. -/
theorem replaceWord_enclosed (hname : IsWord name) (value s : List Char) {front back : List Char}
    (hfront : ∀ c ∈ front, isWordChar c = false)
    (hback : ∀ c ∈ back, isWordChar c = false ∧ c ≠ '(') (hne : back ≠ []) :
    replaceWord name value (front ++ (s ++ back)) =
      front ++ (replaceWord name value s ++ back) := by
  obtain ⟨d, name, rfl⟩ := List.exists_cons_of_ne_nil hname.ne_nil
  obtain ⟨c, back, rfl⟩ := List.exists_cons_of_ne_nil hne
  obtain ⟨hc, hcall⟩ := hback c List.mem_cons_self
  have hd : d ∉ front := fun hd => hname.notMem (hfront d hd) List.mem_cons_self
  have hd' : d ∉ back := fun hd =>
    hname.notMem (hback d (List.mem_cons_of_mem c hd)).1 List.mem_cons_self
  have hbefore : ∀ after, isWholeWord (front.getLast?.or none) after = isWholeWord none after := by
    intro after
    cases hlast : front.getLast? with
    | none => rfl
    | some c =>
        have hc := hfront c (List.mem_of_getLast? hlast)
        simp [isWholeWord, hc]
  rw [replaceWord, replaceWord, replaceWhere_of_ne_nil hname.ne_nil,
    replaceWhere_of_ne_nil hname.ne_nil, replaceFrom_append_of_notMem _ _ _ _ _ hd,
    replaceFrom_congr_before hbefore, replaceFrom_append_border hname.ne_nil (hname.notMem hc)
      (isBorder_isWholeWord hc hcall).after, replaceFrom_of_notMem _ _ _ _ hd']

/-- An opening parenthesis parts a search, and what it calls stays on its own side. -/
theorem replaceWord_append_paren (hname : IsWord name) (value front rest : List Char) :
    replaceWord name value (front ++ '(' :: rest) =
      replaceWord name value (front ++ ['(']) ++ replaceWord name value rest := by
  have hparen : '(' ∉ name := hname.notMem (by decide)
  have hbehind : replaceFrom isWholeWord name value (some '(') 0 rest =
      replaceFrom isWholeWord name value none 0 rest := replaceFrom_congr_before fun _ => rfl
  simp only [replaceWord, replaceWhere_of_ne_nil hname.ne_nil]
  rw [replaceFrom_append_cons hname.ne_nil hparen, replaceFrom_append_cons hname.ne_nil hparen,
    hbehind, replaceFrom_nil, List.append_assoc, List.singleton_append]

theorem exists_replaceWord_paren (hname : IsWord name) (value front : List Char) :
    ∃ s, replaceWord name value (front ++ ['(']) = s ++ ['('] := by
  have hparen : '(' ∉ name := hname.notMem (by decide)
  rw [replaceWord, replaceWhere_of_ne_nil hname.ne_nil, replaceFrom_append_cons hname.ne_nil hparen,
    replaceFrom_nil]
  exact ⟨_, rfl⟩

theorem replaceWord_of_isWord (hname : IsWord name) (hw : IsWord w) :
    replaceWord name value w = if w = name then value else w := by
  have h := mapWords_append (f := fun u => if u = name then some value else none) hw stopsAt_nil
  rw [List.append_nil, mapWords_nil, List.append_nil] at h
  rw [replaceWord_eq_mapWords hname, h]
  by_cases heq : w = name <;> simp [heq]

end Text

end StepTemplate
