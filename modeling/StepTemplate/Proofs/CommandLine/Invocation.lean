import StepTemplate.Proofs.CommandLine.Stages

namespace StepTemplate

/-!
# Arguments on the command line

A command line that spells each argument in a word of its own hands on names and values as they
are. What is printed are the steps of that invocation, or the error that it ends with.
-/

namespace CommandLine

open Argument Text

variable {d : Directory} {definition key : String} {settings : Option String} {s : Settings}
  {g : Group} {pairs : List (String × String)} {words : List String}
  {ps : List Parameter} {options : List (Parameter × List Char)} {ws : List (List Char)}

/-! ## Overrides -/

/-- In the map each name has the value that stands last with it. -/
def LastWins (pairs : List (String × String)) (o : Group.Overrides) : Prop :=
  ∀ name value, o.get? name = some value ↔
    ∃ front back, pairs = front ++ (name, value) :: back ∧ name ∉ back.map Prod.fst

theorem lastWins_overrides (pairs : List (String × String)) : LastWins pairs (overrides pairs) := by
  intro name value
  rw [overrides, OrderedMap.get?_ofList, List.findRev?_eq_find?_reverse, Option.map_eq_some_iff]
  constructor
  · rintro ⟨⟨name', value'⟩, hfind, rfl⟩
    obtain ⟨hname, back, front, hpairs, hback⟩ := List.find?_eq_some_iff_append.mp hfind
    obtain rfl : name' = name := by simpa using hname
    refine ⟨front.reverse, back.reverse, ?_, ?_⟩
    · rw [← List.reverse_reverse pairs, hpairs]
      simp
    · intro hmem
      obtain ⟨pair, hpair, hname'⟩ := List.mem_map.mp hmem
      simpa [hname'] using hback pair (List.mem_reverse.mp hpair)
  · rintro ⟨front, back, rfl, hback⟩
    refine ⟨(name, value), ?_, rfl⟩
    rw [List.find?_eq_some_iff_append]
    refine ⟨by simp, back.reverse, front.reverse, by simp, ?_⟩
    intro pair hpair
    have hne : pair.1 ≠ name := by
      rintro rfl
      exact hback (List.mem_map_of_mem (List.mem_reverse.mp hpair))
    simpa using hne

theorem LastWins.get?_eq {o o' : Group.Overrides} (h : LastWins pairs o) (h' : LastWins pairs o')
    (name : String) : o.get? name = o'.get? name :=
  Option.ext fun value => (h name value).trans (h' name value).symm

theorem invokeWith_congr {o o' : Group.Overrides} (h : ∀ name, o.get? name = o'.get? name)
    (g : Group) (mode : Sequencing) (s : Settings) (key : String) :
    g.invokeWith mode s o key = g.invokeWith mode s o' key := by
  have hresolve : resolve g.name g.arguments o = resolve g.name g.arguments o' :=
    resolve_congr g.name fun a _ => h a.name
  rw [Group.invokeWith, Group.invokeWith, Group.expand, Group.expand, hresolve]

/-! ## What an invocation leaves behind -/

/-- The steps of an invocation are printed, the names of missing arguments are told of. -/
def Outcome.ofSteps : Except Missing (List Step) → Outcome
  | .ok steps => ⟨0, Json.prettyText (Json.ofList Json.ofStep steps) ++ "\n", none⟩
  | .error m => ⟨1, "", some m.message⟩

theorem loadSettings_of_settingsAt (h : SettingsAt d settings s) :
    loadSettings d settings = .ok s := by
  cases settings with
  | none =>
      obtain rfl : s = .everything := h
      rfl
  | some path =>
      obtain ⟨text, htext, hs⟩ := h
      rw [loadSettings_some, htext]
      change demand (.malformedSettings path) (Toml.readSettings? text) = .ok s
      rw [hs]
      rfl

theorem loadGroup_of_groupAt (h : GroupAt d definition g) : loadGroup d definition = .ok g := by
  obtain ⟨text, htext, hg⟩ := h
  rw [loadGroup_eq, htext]
  change (if isJsonPath definition.toList then _ else _) = Except.ok g
  rcases hg with ⟨hjson, hg⟩ | ⟨hyaml, hg⟩
  · rw [if_pos (isJsonPath_iff.mpr hjson), hg]
    rfl
  · rw [if_neg (isJsonPath_iff.not.mpr hyaml), hg]
    rfl

/-- A command line that asks for the steps of an invocation gets them once its files are loaded. -/
theorem outcome_resolve (hasked : (Command.resolve definition key pairs settings).IsAskedBy words)
    (hs : SettingsAt d settings s) (hg : GroupAt d definition g) (environment : Option String)
    {o : Group.Overrides} (ho : LastWins pairs o) :
    outcome d environment words =
      .ofSteps (g.invokeWith .linked (s.override environment) o key) := by
  have hsame := invokeWith_congr ((lastWins_overrides pairs).get?_eq ho) g .linked
    (s.override environment) key
  rw [outcome_of_asked hasked, Command.run, loadSettings_of_settingsAt hs,
    loadGroup_of_groupAt hg, ← hsame]
  change Outcome.ofResult (Except.bind (Except.mapError _ _) _) = _
  cases g.invokeWith .linked (s.override environment) (overrides pairs) key with
  | error m => rfl
  | ok steps => simp [Outcome.ofResult, Outcome.ofSteps, Except.mapError, Except.bind, unlines,
      pure, Except.pure]

/-! ## Words with an option and its value -/

theorem mem_parameters_resolve (p : Parameter) : p ∈ Verb.resolve.parameters := by
  cases p <;> decide

/-- A word with the name of an option and its value behind an equals sign. -/
def optionWord (o : Parameter × List Char) : List Char :=
  '-' :: '-' :: (o.1.name ++ '=' :: o.2)

theorem gives_of_filter (hoptions : ∀ o ∈ options, o.1 ∈ ps)
    (h : ws.filter (· ≠ ['-', verboseLetter]) = options.map optionWord) : Gives ps ws options := by
  induction ws generalizing options with
  | nil =>
      obtain rfl : options = [] := by simpa using h.symm
      exact .nil
  | cons w ws ih =>
      by_cases hw : w = ['-', verboseLetter]
      · rw [List.filter_cons_of_neg (by simp [hw])] at h
        exact .flags w ws options (hw ▸ .letters 0) (ih hoptions h)
      · rw [List.filter_cons_of_pos (by simp [hw])] at h
        obtain ⟨o, rest, rfl, rfl, hrest⟩ := List.map_eq_cons_iff.mp h.symm
        obtain ⟨ho, hoptions⟩ := List.forall_mem_cons.mp hoptions
        exact .joined _ ws rest o.1 o.2 (.nameValue o.1 o.2 ho) (ih hoptions hrest.symm)

def pairWord (pair : String × String) : List Char :=
  pair.1.toList ++ '=' :: pair.2.toList

theorem spellsArgument_pairWord {pair : String × String} (h : IsName '=' pair.1.toList) :
    SpellsArgument (pairWord pair) pair :=
  ⟨pair.1.toList, rfl, h.notMem, h.trim_eq.symm, h.trim_eq.symm ▸ h.ne_nil⟩

/-- The options of an invocation, with its arguments last. -/
def invocationOptions (definition key : String) (pairs : List (String × String)) :
    List (Parameter × List Char) :=
  (.definition, definition.toList) :: (.key, key.toList) ::
    pairs.map fun pair => (.argument, pairWord pair)

theorem means_invocationOptions (hdefinition : definition.toList ≠ [])
    (hnames : ∀ pair ∈ pairs, IsName '=' pair.1.toList) :
    Command.Means (invocationOptions definition key pairs) .resolve
      (.resolve definition key pairs none) := by
  have hvalues : Command.valuesOf .argument (invocationOptions definition key pairs) =
      pairs.map pairWord := by
    simp [Command.valuesOf, invocationOptions, List.filter_map, Function.comp_def]
  have hnone : ∀ p : Parameter, p ≠ .argument →
      Command.valuesOf p (pairs.map fun pair => (Parameter.argument, pairWord pair)) = [] := by
    intro p hp
    refine Command.valuesOf_eq_nil fun o ho => ?_
    obtain ⟨pair, -, rfl⟩ := List.mem_map.mp ho
    exact hp.symm
  have hmeans := @Command.Means.resolve (invocationOptions definition key pairs)
    definition.toList key.toList pairs none ?_ hdefinition ?_ ?_ ?_ (by simp)
  · simpa using hmeans
  · exact congrArg (definition.toList :: ·) (hnone .definition (by simp))
  · exact congrArg (key.toList :: ·) (hnone .key (by simp))
  · rw [hvalues, List.forall₂_map_left_iff, List.forall₂_same]
    exact fun pair hpair => spellsArgument_pairWord (hnames pair hpair)
  · exact hnone .settings (by simp)

theorem map_toList_filter (words : List String) (word : String) :
    (words.filter (· ≠ word)).map String.toList =
      (words.map String.toList).filter (· ≠ word.toList) := by
  rw [List.filter_map]
  refine congrArg (List.map String.toList) (List.filter_congr fun w _ => ?_)
  rw [Function.comp_apply, decide_eq_decide, ne_eq, ne_eq, String.toList_inj]

theorem toList_definitionWord (definition : String) :
    ("--definition=" ++ definition).toList = optionWord (.definition, definition.toList) := by
  rw [String.toList_append]
  rfl

theorem toList_keyWord (key : String) :
    ("--key=" ++ key).toList = optionWord (.key, key.toList) := by
  rw [String.toList_append]
  rfl

theorem toList_argumentWord (pair : String × String) :
    ("--arg=" ++ pair.1 ++ "=" ++ pair.2).toList = optionWord (.argument, pairWord pair) := by
  rw [String.toList_append, String.toList_append, String.toList_append, List.append_assoc,
    List.append_assoc]
  rfl

theorem isAskedBy_invocationWords (hdefinition : definition.toList ≠ [])
    (hnames : ∀ pair ∈ pairs, IsName '=' pair.1.toList)
    (hwords : words.filter (· ≠ "-v") = "resolve" :: ("--definition=" ++ definition) ::
      ("--key=" ++ key) :: pairs.map fun pair => "--arg=" ++ pair.1 ++ "=" ++ pair.2) :
    (Command.resolve definition key pairs none).IsAskedBy words := by
  obtain ⟨front, rest, rfl, hfront, -, hrest⟩ := List.filter_eq_cons_iff.mp hwords
  have hoptions : (rest.map String.toList).filter (· ≠ ['-', verboseLetter]) =
      (invocationOptions definition key pairs).map optionWord := by
    have hfilter := map_toList_filter rest "-v"
    rw [hrest, List.map_cons, List.map_cons, List.map_map, toList_definitionWord,
      toList_keyWord] at hfilter
    rw [invocationOptions, List.map_cons, List.map_cons, List.map_map]
    refine hfilter.symm.trans (congrArg (_ :: _ :: ·) (List.map_congr_left fun pair _ => ?_))
    exact toList_argumentWord pair
  refine ⟨front.map String.toList, .resolve, rest.map String.toList,
    invocationOptions definition key pairs, by simp [Verb.word], ?_, ?_,
    means_invocationOptions hdefinition hnames⟩
  · intro w hw
    obtain ⟨word, hword, rfl⟩ := List.mem_map.mp hw
    obtain rfl : word = "-v" := by simpa using hfront word hword
    exact .letters 0
  · exact gives_of_filter (fun o _ => mem_parameters_resolve o.1) hoptions

theorem ne_nil_of_groupAt (h : GroupAt d definition g) : definition.toList ≠ [] := by
  obtain ⟨text, htext, -⟩ := h
  intro hnil
  have hpath : Directory.isFilePath definition.toList = false := by
    rw [hnil]
    rfl
  rw [Directory.read?, hpath] at htext
  exact absurd htext (by simp)

/-- Names and values come to the group as they are on the command line, whatever the values are, and
of equal names the last one counts. Words that ask for more messages change nothing. -/
theorem outcome_arguments_verbatim (hg : GroupAt d definition g)
    (hnames : ∀ pair ∈ pairs, IsName '=' pair.1.toList)
    (hwords : words.filter (· ≠ "-v") = "resolve" :: ("--definition=" ++ definition) ::
      ("--key=" ++ key) :: pairs.map fun pair => "--arg=" ++ pair.1 ++ "=" ++ pair.2)
    {o : Group.Overrides} (ho : LastWins pairs o) :
    outcome d none words = .ofSteps (g.invoke o key) := by
  have hasked := isAskedBy_invocationWords (ne_nil_of_groupAt hg) hnames hwords
  exact outcome_resolve hasked rfl hg none ho

/-- The user is given twice, the second time with a dash, an equals sign and a blank. -/
def talk : List (String × String) :=
  [("user", ""), ("user", "-a=b ")]

theorem outcome_arguments_verbatim_talk :
    GroupAt desk "greet.json" greet ∧ (∀ pair ∈ talk, IsName '=' pair.1.toList) ∧
    LastWins talk (OrderedMap.ofList [("user", "-a=b ")]) ∧
    (∃ steps, greet.invoke (OrderedMap.ofList [("user", "-a=b ")]) "" = .ok steps) ∧
    outcome desk none ["resolve", "--definition=greet.json", "-v", "--key=", "--arg=user=", "-v",
      "-v", "--arg=user=-a=b "] =
        .ofSteps (greet.invoke (OrderedMap.ofList [("user", "-a=b ")]) "") := by
  have hnames : ∀ pair ∈ talk, IsName '=' pair.1.toList := by decide
  have hmap : overrides talk = OrderedMap.ofList [("user", "-a=b ")] := by decide
  have hlast := lastWins_overrides talk
  rw [hmap] at hlast
  have hresolve : resolve greet.name greet.arguments (OrderedMap.ofList [("user", "-a=b ")]) =
      .ok (Table.ofList [⟨"user", "-a=b ", .entity⟩]) := by decide
  exact ⟨groupAt_desk, hnames, hlast, ⟨_, Group.invokeWith_of_ok hresolve .linked ""⟩,
    outcome_arguments_verbatim groupAt_desk hnames (by decide) hlast⟩

end CommandLine

end StepTemplate
