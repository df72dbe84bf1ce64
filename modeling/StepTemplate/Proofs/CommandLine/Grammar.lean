import Mathlib.Data.List.Forall2
import StepTemplate.CommandLine.Options
import StepTemplate.Proofs.Text.Stretch

namespace StepTemplate

/-!
# The grammar of command lines

An option is spelled by its name or by its letter, and its value stands in the same word or in the
next one. The reader accepts just the spelled command lines, and each of them asks for one command.
-/

namespace CommandLine

open Text

variable {ps : List Parameter} {p : Parameter} {w value : List Char} {ws : List (List Char)}
  {options : List (Parameter × List Char)} {x : Word} {words : List String} {c : Command}

/-! ## Words -/

/-- How a word that starts with a dash is spelled, and what it says. Letters that ask for more
messages may precede the letter of an option. -/
inductive Says (ps : List Parameter) : List Char → Word → Prop where
  | ending : Says ps ['-', '-'] .ending
  | verbose : Says ps ('-' :: '-' :: verboseName) .flags
  | letters (n : Nat) : Says ps ('-' :: List.replicate (n + 1) verboseLetter) .flags
  | name (p : Parameter) (hp : p ∈ ps) : Says ps ('-' :: '-' :: p.name) (.pending p)
  | nameValue (p : Parameter) (value : List Char) (hp : p ∈ ps) :
      Says ps ('-' :: '-' :: (p.name ++ '=' :: value)) (.option p value)
  | letter (n : Nat) (p : Parameter) (hp : p ∈ ps) :
      Says ps ('-' :: (List.replicate n verboseLetter ++ [p.letter])) (.pending p)
  | letterValue (n : Nat) (p : Parameter) (value : List Char) (hp : p ∈ ps) (hne : value ≠ [])
      (hvalue : value.head? ≠ some '=') :
      Says ps ('-' :: (List.replicate n verboseLetter ++ p.letter :: value)) (.option p value)
  | letterEquals (n : Nat) (p : Parameter) (value : List Char) (hp : p ∈ ps) :
      Says ps ('-' :: (List.replicate n verboseLetter ++ p.letter :: '=' :: value))
        (.option p value)

theorem find?_key {α β : Type} [BEq β] [LawfulBEq β] {key : α → β}
    (hinj : Function.Injective key) {a : α} {as : List α} (ha : a ∈ as) :
    as.find? (key · == key a) = some a := by
  cases h : as.find? (key · == key a) with
  | none => simpa using List.find?_eq_none.mp h a ha
  | some b =>
      have hkey := List.find?_some h
      rw [hinj (beq_iff_eq.mp hkey)]

theorem letter_injective : Function.Injective Parameter.letter := by
  intro p q h
  cases p <;> cases q <;> first | rfl | exact absurd h (by decide)

theorem name_injective : Function.Injective Parameter.name := by
  intro p q h
  cases p <;> cases q <;> first | rfl | exact absurd h (by decide)

theorem find?_letter (hp : p ∈ ps) : ps.find? (·.letter == p.letter) = some p :=
  find?_key letter_injective hp

theorem find?_name (hp : p ∈ ps) : ps.find? (·.name == p.name) = some p :=
  find?_key name_injective hp

theorem letter_ne_verbose (p : Parameter) : p.letter ≠ verboseLetter := by
  cases p <;> decide

theorem letter_ne_dash (p : Parameter) : p.letter ≠ '-' := by
  cases p <;> decide

theorem name_chars (p : Parameter) : ∀ c ∈ p.name, (c != '=') = true := by
  rw [← List.all_eq_true]
  cases p <;> decide

theorem name_ne_verbose (p : Parameter) : p.name ≠ verboseName := by
  cases p <;> decide

theorem name_ne_nil (p : Parameter) : p.name ≠ [] := by
  cases p <;> decide

namespace Word

theorem ofChars?_long {s : List Char} (hs : s ≠ []) :
    ofChars? ps ('-' :: '-' :: s) = ofName? ps s := by
  obtain ⟨d, t, rfl⟩ := List.exists_cons_of_ne_nil hs
  rfl

theorem ofChars?_short {d : Char} (hd : d ≠ '-') (s : List Char) :
    ofChars? ps ('-' :: d :: s) = ofLetters? ps (d :: s) := by
  rw [ofChars?.eq_def]
  split
  · next h => simp_all
  · next h => simp_all
  · next h =>
    obtain ⟨rfl, rfl⟩ : d = _ ∧ s = _ := by simpa using h
    rfl
  · next h => exact absurd rfl (h d s)

theorem ofLetters?_replicate (n : Nat) (s : List Char) :
    ofLetters? ps (List.replicate n verboseLetter ++ s) = ofLetters? ps s := by
  induction n with
  | zero => rfl
  | succ n ih => simpa [List.replicate_succ, ofLetters?] using ih

theorem ofLetters?_letter (hp : p ∈ ps) (s : List Char) :
    ofLetters? ps (p.letter :: s) = match s with
      | [] => some (pending p)
      | '=' :: value => some (option p value)
      | value => some (option p value) := by
  rw [ofLetters?, if_neg (letter_ne_verbose p), find?_letter hp]
  rfl

theorem ofChars?_letters (n : Nat) (p : Parameter) (s : List Char) :
    ofChars? ps ('-' :: (List.replicate n verboseLetter ++ p.letter :: s)) =
      ofLetters? ps (p.letter :: s) := by
  cases n with
  | zero => exact ofChars?_short (letter_ne_dash p) s
  | succ n =>
      rw [List.replicate_succ, List.cons_append, ofChars?_short (by decide), ← List.cons_append,
        ← List.replicate_succ, ofLetters?_replicate]

theorem ofName?_name (hp : p ∈ ps) : ofName? ps p.name = some (pending p) := by
  have htake : p.name.takeWhile (· != '=') = p.name :=
    List.takeWhile_eq_self_iff.mpr (name_chars p)
  have hdrop : p.name.dropWhile (· != '=') = [] :=
    List.dropWhile_eq_nil_iff.mpr (name_chars p)
  simp [ofName?, name_ne_verbose, htake, hdrop, find?_name hp]

theorem ofName?_nameValue (hp : p ∈ ps) (value : List Char) :
    ofName? ps (p.name ++ '=' :: value) = some (option p value) := by
  have hstop : StopsAt (· != '=') ('=' :: value) := by simp
  have hne : p.name ++ '=' :: value ≠ verboseName := by
    intro h
    have hmem : '=' ∈ verboseName := by
      rw [← h]
      simp
    exact absurd hmem (by decide)
  simp [ofName?, hne, takeWhile_append_of_stops (name_chars p) hstop,
    dropWhile_append_of_stops (name_chars p) hstop, find?_name hp]

theorem says_of_ofName? {s : List Char} (h : ofName? ps s = some x) :
    Says ps ('-' :: '-' :: s) x := by
  rw [ofName?] at h
  split at h
  · next hs =>
    obtain rfl : flags = x := Option.some.inj h
    exact hs ▸ .verbose
  · cases hfind : ps.find? (·.name == s.takeWhile (· != '=')) with
    | none => simp [hfind] at h
    | some p =>
        have hp := List.mem_of_find?_eq_some hfind
        have hname : p.name = s.takeWhile (· != '=') := by simpa using List.find?_some hfind
        have hs : s = p.name ++ s.dropWhile (· != '=') := by
          rw [hname, List.takeWhile_append_dropWhile]
        cases hdrop : s.dropWhile (· != '=') with
        | nil =>
            rw [hdrop, List.append_nil] at hs
            obtain rfl : pending p = x := by simpa [hfind, hdrop] using h
            exact hs ▸ .name p hp
        | cons d value =>
            have hd : d = '=' := by
              have hstop := stopsAt_dropWhile (· != '=') s
              rw [hdrop] at hstop
              simpa using hstop
            obtain rfl : option p value = x := by simpa [hfind, hdrop] using h
            rw [hs, hdrop, hd]
            exact .nameValue p value hp

theorem says_of_ofLetters? {s : List Char} (n : Nat) (hs : n ≠ 0 ∨ s ≠ [])
    (h : ofLetters? ps s = some x) :
    Says ps ('-' :: (List.replicate n verboseLetter ++ s)) x := by
  induction s generalizing n with
  | nil =>
      obtain rfl : flags = x := Option.some.inj h
      obtain ⟨n, rfl⟩ := Nat.exists_eq_succ_of_ne_zero (hs.resolve_right (by simp))
      rw [List.append_nil]
      exact .letters n
  | cons d s ih =>
      rw [ofLetters?] at h
      by_cases hd : d = verboseLetter
      · rw [if_pos hd] at h
        -- the letter joins the `n` ones in front of it
        have hsays := ih (n + 1) (Or.inl (Nat.succ_ne_zero n)) h
        have hshift : List.replicate n verboseLetter ++ verboseLetter :: s =
            List.replicate (n + 1) verboseLetter ++ s := by
          rw [List.replicate_succ', List.append_assoc, List.singleton_append]
        rwa [hd, hshift]
      · rw [if_neg hd] at h
        cases hfind : ps.find? (·.letter == d) with
        | none => simp [hfind] at h
        | some p =>
            have hp := List.mem_of_find?_eq_some hfind
            obtain rfl : p.letter = d := by simpa using List.find?_some hfind
            rw [hfind] at h
            cases s with
            | nil =>
                obtain rfl : pending p = x := by simpa using h
                exact .letter n p hp
            | cons e s =>
                by_cases he : e = '='
                · subst he
                  obtain rfl : option p s = x := by simpa using h
                  exact .letterEquals n p s hp
                · obtain rfl : option p (e :: s) = x := by simpa [he] using h
                  exact .letterValue n p (e :: s) hp (by simp) (by simpa using he)

theorem ofChars?_eq_some_iff : ofChars? ps w = some x ↔ Says ps w x := by
  constructor
  · intro h
    rw [ofChars?.eq_def] at h
    split at h
    · obtain rfl : ending = x := Option.some.inj h
      exact .ending
    · exact says_of_ofName? h
    · next d s _ => exact says_of_ofLetters? 0 (Or.inr (by simp)) h
    · simp at h
  · intro h
    cases h with
    | ending => rfl
    | verbose => rfl
    | letters n =>
        rw [List.replicate_succ, ofChars?_short (by decide), ← List.replicate_succ,
          ← List.append_nil (List.replicate _ _), ofLetters?_replicate]
        rfl
    | name p hp => rw [ofChars?_long (name_ne_nil p), ofName?_name hp]
    | nameValue p value hp => rw [ofChars?_long (by simp), ofName?_nameValue hp]
    | letter n p hp => rw [ofChars?_letters n p, ofLetters?_letter hp]
    | letterValue n p value hp hne hvalue =>
        obtain ⟨d, t, rfl⟩ := List.exists_cons_of_ne_nil hne
        have hd : d ≠ '=' := by simpa using hvalue
        rw [ofChars?_letters n p, ofLetters?_letter hp]
        simp [hd]
    | letterEquals n p value hp =>
        rw [ofChars?_letters n p, ofLetters?_letter hp]
        rfl

theorem isValue_iff {s : List Char} : isValue s = true ↔ (s.head? = some '-' → s = ['-']) := by
  rw [isValue, Bool.or_eq_true, bne_iff_ne, beq_iff_eq, ne_eq, ← imp_iff_not_or]

end Word

/-! ## Lines -/

/-- The words behind a command and the options that they give. A value in a word of its own starts
with no dash, unless it is a dash. -/
inductive Gives (ps : List Parameter) :
    List (List Char) → List (Parameter × List Char) → Prop where
  | nil : Gives ps [] []
  | ending (w : List Char) (hw : Says ps w .ending) : Gives ps [w] []
  | flags (w : List Char) (ws : List (List Char)) (options : List (Parameter × List Char))
      (hw : Says ps w .flags) (hws : Gives ps ws options) : Gives ps (w :: ws) options
  | joined (w : List Char) (ws : List (List Char)) (options : List (Parameter × List Char))
      (p : Parameter) (value : List Char) (hw : Says ps w (.option p value))
      (hws : Gives ps ws options) : Gives ps (w :: ws) ((p, value) :: options)
  | apart (w : List Char) (ws : List (List Char)) (options : List (Parameter × List Char))
      (p : Parameter) (value : List Char) (hw : Says ps w (.pending p))
      (hvalue : value.head? = some '-' → value = ['-']) (hws : Gives ps ws options) :
      Gives ps (w :: value :: ws) ((p, value) :: options)

theorem readOptions_flags (hw : Says ps w .flags) :
    readOptions ps (w :: ws) = readOptions ps ws := by
  rw [readOptions, Word.ofChars?_eq_some_iff.mpr hw]
  rfl

theorem readOptions_joined (hw : Says ps w (.option p value)) :
    readOptions ps (w :: ws) = (readOptions ps ws).map ((p, value) :: ·) := by
  rw [readOptions, Word.ofChars?_eq_some_iff.mpr hw]
  cases readOptions ps ws <;> rfl

theorem readOptions_pending (hw : Says ps w (.pending p)) : readOptions ps [w] = none := by
  rw [readOptions, Word.ofChars?_eq_some_iff.mpr hw]
  rfl

theorem readOptions_apart (hw : Says ps w (.pending p)) :
    readOptions ps (w :: value :: ws) =
      if value.head? = some '-' → value = ['-'] then (readOptions ps ws).map ((p, value) :: ·)
      else none := by
  rw [readOptions, Word.ofChars?_eq_some_iff.mpr hw]
  simp only [← Word.isValue_iff]
  cases readOptions ps ws <;> rfl

theorem readOptions_ending (hw : Says ps w .ending) :
    readOptions ps (w :: ws) = if ws.isEmpty then some [] else none := by
  rw [readOptions, Word.ofChars?_eq_some_iff.mpr hw]
  rfl

theorem gives_of_readOptions (h : readOptions ps ws = some options) : Gives ps ws options := by
  -- an option takes up one word or two, so the induction is on the number of words
  induction hn : ws.length using Nat.strongRecOn generalizing ws options with
  | ind n ih =>
      subst hn
      cases ws with
      | nil =>
          obtain rfl : [] = options := Option.some.inj h
          exact .nil
      | cons w ws =>
          cases hx : Word.ofChars? ps w with
          | none => simp [readOptions, hx] at h
          | some x =>
              have hw := Word.ofChars?_eq_some_iff.mp hx
              cases x with
              | flags =>
                  rw [readOptions_flags hw] at h
                  exact .flags w ws options hw (ih ws.length (by simp) h rfl)
              | option p value =>
                  rw [readOptions_joined hw, Option.map_eq_some_iff] at h
                  obtain ⟨rest, hrest, rfl⟩ := h
                  exact .joined w ws rest p value hw (ih ws.length (by simp) hrest rfl)
              | pending p =>
                  cases ws with
                  | nil => simp [readOptions_pending hw] at h
                  | cons value ws =>
                      rw [readOptions_apart hw] at h
                      split at h
                      · next hvalue =>
                        obtain ⟨rest, hrest, rfl⟩ := Option.map_eq_some_iff.mp h
                        have hlt : ws.length < (w :: value :: ws).length := by
                          simp only [List.length_cons]
                          omega
                        exact .apart w ws rest p value hw hvalue (ih ws.length hlt hrest rfl)
                      · simp at h
              | ending =>
                  rw [readOptions_ending hw] at h
                  cases ws with
                  | nil =>
                      obtain rfl : [] = options := Option.some.inj h
                      exact .ending w hw
                  | cons v ws => simp at h

theorem readOptions_eq_some_iff : readOptions ps ws = some options ↔ Gives ps ws options := by
  refine ⟨gives_of_readOptions, fun h => ?_⟩
  induction h with
  | nil => rfl
  | ending w hw => exact readOptions_ending hw
  | flags w ws options hw hws ih => rw [readOptions_flags hw, ih]
  | joined w ws options p value hw hws ih => rw [readOptions_joined hw, ih, Option.map_some]
  | apart w ws options p value hw hvalue hws ih =>
      rw [readOptions_apart hw, if_pos hvalue, ih, Option.map_some]

theorem Says.mem_of_option (h : Says ps w (.option p value)) : p ∈ ps := by
  cases h <;> assumption

theorem Says.mem_of_pending (h : Says ps w (.pending p)) : p ∈ ps := by
  cases h <;> assumption

theorem Gives.mem_parameters (h : Gives ps ws options) : ∀ o ∈ options, o.1 ∈ ps := by
  induction h with
  | nil => simp
  | ending w hw => simp
  | flags w ws options hw hws ih => exact ih
  | joined w ws options p value hw hws ih =>
      exact List.forall_mem_cons.mpr ⟨hw.mem_of_option, ih⟩
  | apart w ws options p value hw hvalue hws ih =>
      exact List.forall_mem_cons.mpr ⟨hw.mem_of_pending, ih⟩

theorem Says.head? (h : Says ps w x) : w.head? = some '-' := by
  cases h <;> rfl

theorem head?_word (verb : Verb) : verb.word.toList.head? ≠ some '-' := by
  cases verb <;> decide

theorem find?_verb {verb : Verb} :
    [Verb.resolve, Verb.keys].find? (·.word.toList == w) = some verb ↔ verb.word.toList = w := by
  constructor
  · intro h
    simpa using List.find?_some h
  · rintro rfl
    cases verb <;> decide

theorem readVerb_word (verb : Verb) (ws : List (List Char)) :
    readVerb (verb.word.toList :: ws) =
      (readOptions verb.parameters ws).map fun options => (verb, options) := by
  rw [readVerb, find?_verb.mpr rfl]

theorem readVerb_flags (hw : Says [] w .flags) : readVerb (w :: ws) = readVerb ws := by
  have hnone : [Verb.resolve, Verb.keys].find? (·.word.toList == w) = none := by
    refine Option.eq_none_iff_forall_ne_some.mpr fun verb h => ?_
    exact head?_word verb (find?_verb.mp h ▸ hw.head?)
  rw [readVerb, hnone, Word.ofChars?_eq_some_iff.mpr hw]

/-- Before the command stand only words that ask for more messages. -/
theorem readVerb_eq_some_iff {verb : Verb} :
    readVerb ws = some (verb, options) ↔
      ∃ front rest, ws = front ++ verb.word.toList :: rest ∧ (∀ w ∈ front, Says [] w .flags) ∧
        Gives verb.parameters rest options := by
  constructor
  · intro h
    induction ws with
    | nil => simp [readVerb] at h
    | cons w ws ih =>
        cases hverb : [Verb.resolve, Verb.keys].find? (·.word.toList == w) with
        | some verb' =>
            obtain rfl := find?_verb.mp hverb
            rw [readVerb_word, Option.map_eq_some_iff] at h
            obtain ⟨rest, hrest, heq⟩ := h
            obtain ⟨rfl, rfl⟩ := Prod.mk.inj heq
            exact ⟨[], ws, rfl, by simp, readOptions_eq_some_iff.mp hrest⟩
        | none =>
            simp only [readVerb, hverb] at h
            split at h
            · next hflags =>
              obtain ⟨front, rest, rfl, hfront, hgives⟩ := ih h
              refine ⟨w :: front, rest, rfl, ?_, hgives⟩
              exact List.forall_mem_cons.mpr ⟨Word.ofChars?_eq_some_iff.mp hflags, hfront⟩
            · simp at h
  · rintro ⟨front, rest, rfl, hfront, hgives⟩
    induction front with
    | nil =>
        rw [List.nil_append, readVerb_word, readOptions_eq_some_iff.mpr hgives, Option.map_some]
    | cons w front ih =>
        obtain ⟨hw, hfront⟩ := List.forall_mem_cons.mp hfront
        rw [List.cons_append, readVerb_flags hw, ih hfront]

/-! ## Commands -/

/-- A word `name=value` for an argument, perhaps with blanks around the name. -/
def SpellsArgument (word : List Char) (argument : String × String) : Prop :=
  ∃ padded, word = padded ++ '=' :: argument.2.toList ∧ '=' ∉ padded ∧
    argument.1.toList = trim padded ∧ trim padded ≠ []

theorem readArgument?_eq_some_iff {argument : String × String} :
    readArgument? w = some argument ↔ SpellsArgument w argument := by
  constructor
  · intro h
    have hsplit := List.takeWhile_append_dropWhile (p := (· != '=')) (l := w)
    rw [readArgument?] at h
    cases hdrop : w.dropWhile (· != '=') with
    | nil => simp [hdrop] at h
    | cons d value =>
        have hd : d = '=' := by
          have hstop := stopsAt_dropWhile (· != '=') w
          rw [hdrop] at hstop
          simpa using hstop
        simp only [hdrop] at h
        split at h
        · simp at h
        · next hname =>
          obtain rfl := Option.some.inj h
          refine ⟨w.takeWhile (· != '='), ?_, ?_, by simp, by simpa using hname⟩
          · rw [hdrop, hd] at hsplit
            simpa using hsplit.symm
          · intro hmem
            simpa using List.mem_takeWhile_imp hmem
  · rintro ⟨padded, rfl, hpadded, hname, hne⟩
    have hchars : ∀ c ∈ padded, (c != '=') = true := by
      intro c hc
      have hne : c ≠ '=' := by
        rintro rfl
        exact hpadded hc
      simpa using hne
    have hstop : StopsAt (· != '=') ('=' :: argument.2.toList) := by simp
    have hname' : ¬ (trim padded).isEmpty = true := by simpa using hne
    simp only [readArgument?, takeWhile_append_of_stops hchars hstop,
      dropWhile_append_of_stops hchars hstop]
    rw [if_neg hname', ← hname, String.ofList_toList, String.ofList_toList]

namespace Command

/-- The command that a verb makes of its options. Only arguments may be given more than once, and a
file has a name. -/
inductive Means (options : List (Parameter × List Char)) : Verb → Command → Prop where
  | keys (definition : List Char) (hdefinition : valuesOf .definition options = [definition])
      (hne : definition ≠ []) : Means options .keys (keys (String.ofList definition))
  | resolve (definition key : List Char) (arguments : List (String × String))
      (settings : Option (List Char)) (hdefinition : valuesOf .definition options = [definition])
      (hne : definition ≠ []) (hkey : valuesOf .key options = [key])
      (harguments : List.Forall₂ SpellsArgument (valuesOf .argument options) arguments)
      (hsettings : valuesOf .settings options = settings.toList) (hnamed : settings ≠ some []) :
      Means options .resolve (resolve (String.ofList definition) (String.ofList key) arguments
        (settings.map String.ofList))

/-- The command line asks for the command. -/
def IsAskedBy (c : Command) (words : List String) : Prop :=
  ∃ front verb rest options, words.map String.toList = front ++ verb.word.toList :: rest ∧
    (∀ w ∈ front, Says [] w .flags) ∧ Gives verb.parameters rest options ∧ Means options verb c

theorem areDistinct_iff :
    areDistinct options = true ↔ (valuesOf .definition options).length ≤ 1 ∧
      (valuesOf .key options).length ≤ 1 ∧ (valuesOf .settings options).length ≤ 1 := by
  simp [areDistinct, Parameter.all, Parameter.isRepeatable]

theorem mem_valuesOf : value ∈ valuesOf p options ↔ (p, value) ∈ options := by
  simp [valuesOf]

theorem areNamed_iff :
    areNamed options = true ↔
      [] ∉ valuesOf .definition options ∧ [] ∉ valuesOf .settings options := by
  rw [areNamed, List.all_eq_true, mem_valuesOf, mem_valuesOf]
  constructor
  · intro h
    exact ⟨fun hmem => absurd (h _ hmem) (by decide), fun hmem => absurd (h _ hmem) (by decide)⟩
  · rintro ⟨hdefinition, hsettings⟩ ⟨p, value⟩ hmem
    cases value with
    | cons d value => rfl
    | nil =>
        cases p with
        | definition => exact absurd hmem hdefinition
        | settings => exact absurd hmem hsettings
        | key => rfl
        | argument => rfl

theorem mapM_readArgument?_iff {values : List (List Char)} {arguments : List (String × String)} :
    values.mapM readArgument? = some arguments ↔
      List.Forall₂ SpellsArgument values arguments := by
  induction values generalizing arguments with
  | nil => simp [eq_comm]
  | cons w values ih =>
      rw [List.mapM_cons, List.forall₂_cons_left_iff]
      constructor
      · intro h
        obtain ⟨argument, hargument, h⟩ := Option.bind_eq_some_iff.mp h
        obtain ⟨rest, hrest, h⟩ := Option.bind_eq_some_iff.mp h
        obtain rfl := Option.some.inj h
        exact ⟨argument, rest, readArgument?_eq_some_iff.mp hargument, ih.mp hrest, rfl⟩
      · rintro ⟨argument, rest, hargument, hrest, rfl⟩
        rw [readArgument?_eq_some_iff.mpr hargument, ih.mpr hrest]
        rfl

theorem valuesOf_eq_nil (h : ∀ o ∈ options, o.1 ≠ p) : valuesOf p options = [] := by
  rw [valuesOf, List.map_eq_nil_iff, List.filter_eq_nil_iff]
  intro o ho
  simpa using h o ho

theorem valueOf?_of_valuesOf {g : Option (List Char)} (h : valuesOf p options = g.toList) :
    valueOf? p options = g.map String.ofList := by
  rw [valueOf?, h]
  cases g <;> rfl

theorem valuesOf_eq_toList (h : (valuesOf p options).length ≤ 1) :
    ∃ given : Option (List Char), valuesOf p options = given.toList := by
  match hvalues : valuesOf p options with
  | [] => exact ⟨none, rfl⟩
  | [value] => exact ⟨some value, rfl⟩
  | _ :: _ :: _ =>
      rw [hvalues] at h
      simp at h

/-- The command that a verb makes of options, each given often enough and not too often. -/
def ofOptions? (verb : Verb) (options : List (Parameter × List Char)) : Option Command :=
  (valueOf? .definition options).bind fun definition =>
    match verb with
    | .keys => some (keys definition)
    | .resolve =>
      (valueOf? .key options).bind fun key =>
        ((valuesOf .argument options).mapM readArgument?).map fun arguments =>
          resolve definition key arguments (valueOf? .settings options)

theorem ofWords?_eq_some_iff_exists :
    ofWords? words = some c ↔ ∃ verb options, readVerb (words.map String.toList) =
      some (verb, options) ∧ areDistinct options = true ∧ areNamed options = true ∧
        ofOptions? verb options = some c := by
  rw [ofWords?]
  cases readVerb (words.map String.toList) with
  | none => simp
  | some command =>
      obtain ⟨verb, options⟩ := command
      cases verb with
      | keys => simp [ofOptions?, and_assoc]
      | resolve =>
          simp only [ofOptions?, Option.map_eq_bind, Function.comp_def]
          simp [and_assoc]

theorem Means.of_ofOptions? {verb : Verb} (hdistinct : areDistinct options = true)
    (hnamed : areNamed options = true) (h : ofOptions? verb options = some c) :
    Means options verb c := by
  obtain ⟨hd, hk, hs⟩ := areDistinct_iff.mp hdistinct
  obtain ⟨hdefinition, hsettings⟩ := areNamed_iff.mp hnamed
  obtain ⟨definition?, hd⟩ := valuesOf_eq_toList hd
  obtain ⟨key?, hk⟩ := valuesOf_eq_toList hk
  obtain ⟨settings, hs⟩ := valuesOf_eq_toList hs
  rw [ofOptions?, valueOf?_of_valuesOf hd] at h
  cases definition? with
  | none => simp at h
  | some definition =>
      have hne : definition ≠ [] := by
        rintro rfl
        simp [hd] at hdefinition
      rw [Option.map_some, Option.bind_some] at h
      cases verb with
      | keys =>
          obtain rfl := Option.some.inj h
          exact .keys definition hd hne
      | resolve =>
          simp only [valueOf?_of_valuesOf hk, valueOf?_of_valuesOf hs] at h
          cases key? with
          | none => simp at h
          | some key =>
              rw [Option.map_some, Option.bind_some] at h
              obtain ⟨arguments, harguments, rfl⟩ := Option.map_eq_some_iff.mp h
              refine .resolve definition key arguments settings hd hne hk
                (mapM_readArgument?_iff.mp harguments) hs ?_
              rintro rfl
              simp [hs] at hsettings

theorem Means.ofOptions?_eq {verb : Verb} (h : Means options verb c) :
    ofOptions? verb options = some c := by
  cases h with
  | keys definition hdefinition hne =>
      have hd := valueOf?_of_valuesOf (g := some definition) hdefinition
      simp [ofOptions?, hd]
  | resolve definition key arguments settings hdefinition hne hkey harguments hsettings hnamed =>
      have hd := valueOf?_of_valuesOf (g := some definition) hdefinition
      have hk := valueOf?_of_valuesOf (g := some key) hkey
      have hs := valueOf?_of_valuesOf hsettings
      simp [ofOptions?, hd, hk, hs, mapM_readArgument?_iff.mpr harguments]

theorem Means.distinct_named {verb : Verb} (h : Means options verb c)
    (hmem : ∀ o ∈ options, o.1 ∈ verb.parameters) :
    areDistinct options = true ∧ areNamed options = true := by
  rw [areDistinct_iff, areNamed_iff]
  cases h with
  | keys definition hdefinition hne =>
      -- the command has no such options, so they are not given too often
      have hkey : valuesOf .key options = [] :=
        valuesOf_eq_nil fun o ho heq => by simpa [heq, Verb.parameters] using hmem o ho
      have hsettings : valuesOf .settings options = [] :=
        valuesOf_eq_nil fun o ho heq => by simpa [heq, Verb.parameters] using hmem o ho
      simp [hdefinition, hkey, hsettings, Ne.symm hne]
  | resolve definition key arguments settings hdefinition hne hkey harguments hsettings hnamed =>
      cases settings with
      | none => simp [hdefinition, hkey, hsettings, Ne.symm hne]
      | some path =>
          have hpath : [] ≠ path := by
            rintro rfl
            exact hnamed rfl
          simp [hdefinition, hkey, hsettings, Ne.symm hne, hpath]

/-- The reader accepts the command lines of the grammar and no others. -/
theorem ofWords?_eq_some_iff : ofWords? words = some c ↔ c.IsAskedBy words := by
  rw [ofWords?_eq_some_iff_exists]
  constructor
  · rintro ⟨verb, options, hverb, hdistinct, hnamed, hoptions⟩
    obtain ⟨front, rest, hwords, hfront, hgives⟩ := readVerb_eq_some_iff.mp hverb
    exact ⟨front, verb, rest, options, hwords, hfront, hgives,
      .of_ofOptions? hdistinct hnamed hoptions⟩
  · rintro ⟨front, verb, rest, options, hwords, hfront, hgives, hmeans⟩
    obtain ⟨hdistinct, hnamed⟩ := hmeans.distinct_named hgives.mem_parameters
    exact ⟨verb, options, readVerb_eq_some_iff.mpr ⟨front, rest, hwords, hfront, hgives⟩,
      hdistinct, hnamed, hmeans.ofOptions?_eq⟩

end Command

end CommandLine

end StepTemplate
