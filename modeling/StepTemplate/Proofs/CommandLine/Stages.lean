import StepTemplate.CommandLine.Run
import StepTemplate.Proofs.Argument
import StepTemplate.Proofs.CommandLine.Grammar
import StepTemplate.Proofs.Group.Expansion
import StepTemplate.Proofs.Json.Grammar
import StepTemplate.Proofs.Json.Records
import StepTemplate.Proofs.Text.Pieces

namespace StepTemplate

/-!
# The stages of a run

A run is a chain of stages, and each of them can fail. The first that fails decides the outcome;
only a run without a failing stage prints anything.
-/

namespace CommandLine

open Argument Text

/-! ## Chains of stages -/

/-- A stage of a run: when it succeeds, and what problems it reports otherwise. -/
structure Stage where
  Succeeds : Prop
  Reports : Problem → Prop

/-- The stage is the first one that fails. -/
inductive FailsFirst (s : Stage) : List Stage → Prop where
  | here (ss : List Stage) (hs : ¬ s.Succeeds) : FailsFirst s (s :: ss)
  | later (t : Stage) (ss : List Stage) (ht : t.Succeeds) (hs : FailsFirst s ss) :
      FailsFirst s (t :: ss)

/-- A result that stages decide: it is a good value if all of them succeed, and else a problem that
the first one to fail reports. -/
structure Follows {α : Type} (x : Except Problem α) (stages : List Stage) (good : α → Prop) :
    Prop where
  ok : (∀ s ∈ stages, s.Succeeds) → ∃ a, x = .ok a ∧ good a
  error : ∀ s, FailsFirst s stages → ∃ p, s.Reports p ∧ x = .error p

variable {α β : Type} {x : Except Problem α} {f : α → Except Problem β} {s : Stage}
  {ss ts : List Stage} {good : α → Prop} {good' : β → Prop}

theorem FailsFirst.mem (h : FailsFirst s ss) : s ∈ ss := by
  induction h with
  | here ss hs => exact List.mem_cons_self
  | later t ss ht hs ih => exact List.mem_cons_of_mem t ih

theorem FailsFirst.not_succeeds (h : FailsFirst s ss) : ¬ s.Succeeds := by
  induction h with
  | here ss hs => exact hs
  | later t ss ht hs ih => exact ih

theorem all_succeed_or_failsFirst (ss : List Stage) :
    (∀ s ∈ ss, s.Succeeds) ∨ ∃ s, FailsFirst s ss := by
  induction ss with
  | nil => exact Or.inl (by simp)
  | cons t ss ih =>
      by_cases ht : t.Succeeds
      · rcases ih with hall | ⟨s, hs⟩
        · exact Or.inl (List.forall_mem_cons.mpr ⟨ht, hall⟩)
        · exact Or.inr ⟨s, .later t ss ht hs⟩
      · exact Or.inr ⟨t, .here ss ht⟩

theorem failsFirst_append (h : FailsFirst s (ss ++ ts)) :
    FailsFirst s ss ∨ (∀ t ∈ ss, t.Succeeds) ∧ FailsFirst s ts := by
  induction ss with
  | nil => exact Or.inr ⟨by simp, h⟩
  | cons u ss ih =>
      cases h with
      | here _ hs => exact Or.inl (.here ss hs)
      | later _ _ hu hs =>
          rcases ih hs with hs | ⟨hall, hs⟩
          · exact Or.inl (.later u ss hu hs)
          · exact Or.inr ⟨List.forall_mem_cons.mpr ⟨hu, hall⟩, hs⟩

theorem Follows.bind (hx : Follows x ss good) (hf : ∀ a, good a → Follows (f a) ts good') :
    Follows (x >>= f) (ss ++ ts) good' := by
  constructor
  · intro hall
    obtain ⟨hss, hts⟩ := List.forall_mem_append.mp hall
    obtain ⟨a, rfl, ha⟩ := hx.ok hss
    exact (hf a ha).ok hts
  · intro s hs
    rcases failsFirst_append hs with hs | ⟨hss, hs⟩
    · obtain ⟨p, hp, rfl⟩ := hx.error s hs
      exact ⟨p, hp, rfl⟩
    · obtain ⟨a, rfl, ha⟩ := hx.ok hss
      exact (hf a ha).error s hs

theorem Follows.cons (hx : Follows x [s] good) (hf : ∀ a, good a → Follows (f a) ss good') :
    Follows (x >>= f) (s :: ss) good' :=
  hx.bind hf

theorem Follows.map {g : α → β} (hx : Follows x ss good) (hg : ∀ a, good a → good' (g a)) :
    Follows (x >>= fun a => pure (g a)) ss good' := by
  rw [← List.append_nil ss]
  refine hx.bind fun a ha => ⟨fun _ => ⟨g a, rfl, hg a ha⟩, fun s hs => ?_⟩
  cases hs

theorem Follows.imp {wider : α → Prop} (hx : Follows x ss good) (h : ∀ a, good a → wider a) :
    Follows x ss wider :=
  ⟨fun hall => (hx.ok hall).imp fun a ha => ⟨ha.1, h a ha.2⟩, hx.error⟩

theorem follows_singleton (hok : s.Succeeds → ∃ a, x = .ok a ∧ good a)
    (herror : ¬ s.Succeeds → ∃ p, s.Reports p ∧ x = .error p) : Follows x [s] good := by
  constructor
  · intro hall
    exact hok (hall s (List.mem_singleton_self s))
  · intro t ht
    obtain rfl : t = s := List.mem_singleton.mp ht.mem
    exact herror ht.not_succeeds

/-- A value that there must be. -/
def demand (p : Problem) (o : Option α) : Except Problem α :=
  o.elim (.error p) .ok

theorem follows_demand {o : Option α} {p : Problem} (hs : s.Succeeds ↔ ∃ a, o = some a)
    (hp : s.Reports p) : Follows (demand p o) [s] (o = some ·) := by
  refine follows_singleton (fun h => ?_) fun h => ?_
  · obtain ⟨a, rfl⟩ := hs.mp h
    exact ⟨a, rfl, rfl⟩
  · cases o with
    | none => exact ⟨p, hp, rfl⟩
    | some a => exact absurd (hs.mpr ⟨a, rfl⟩) h

/-! ## Names of files -/

/-- A folder in front of the name of a file: nothing, or a path that ends with a slash. -/
def IsFolder (folder : List Char) : Prop :=
  folder = [] ∨ ∃ outer, folder = outer ++ ['/']

theorem fileName_append {folder name : List Char} (hfolder : IsFolder folder) (hname : '/' ∉ name) :
    Directory.fileName (folder ++ name) = name := by
  rw [Directory.fileName]
  rcases hfolder with rfl | ⟨outer, rfl⟩
  · rw [List.nil_append, pieces_of_notMem hname]
    rfl
  · rw [List.append_assoc, List.singleton_append, pieces_append_sep, pieces_of_notMem hname]
    simp

theorem exists_folder (path : List Char) :
    ∃ folder name, path = folder ++ name ∧ IsFolder folder ∧ '/' ∉ name := by
  induction path with
  | nil => exact ⟨[], [], rfl, Or.inl rfl, by simp⟩
  | cons c path ih =>
      obtain ⟨folder, name, rfl, hfolder | ⟨outer, rfl⟩, hname⟩ := ih
      · subst hfolder
        by_cases hc : c = '/'
        · exact ⟨[c], name, rfl, Or.inr ⟨[], by rw [hc]; rfl⟩, hname⟩
        · exact ⟨[], c :: name, rfl, Or.inl rfl, by simp [Ne.symm hc, hname]⟩
      · exact ⟨c :: (outer ++ ['/']), name, rfl, Or.inr ⟨c :: outer, rfl⟩, hname⟩

/-- The path leads to a file whose name is more than the extension `.json` and ends with it. -/
def HasExtensionJson (path : String) : Prop :=
  ∃ folder stem, path.toList = folder ++ (stem ++ ".json".toList) ∧ IsFolder folder ∧
    '/' ∉ stem ∧ stem ≠ []

theorem isJsonPath_iff {path : String} :
    isJsonPath path.toList = true ↔ HasExtensionJson path := by
  constructor
  · intro h
    obtain ⟨folder, name, hpath, hfolder, hname⟩ := exists_folder path.toList
    rw [hpath, isJsonPath, fileName_append hfolder hname, Bool.and_eq_true,
      List.isSuffixOf_iff_suffix, decide_eq_true_eq] at h
    obtain ⟨⟨stem, rfl⟩, hlength⟩ := h
    refine ⟨folder, stem, hpath, hfolder, fun h => hname (List.mem_append_left _ h), ?_⟩
    rintro rfl
    exact absurd hlength (by decide)
  · rintro ⟨folder, stem, hpath, hfolder, hstem, hne⟩
    have hname : '/' ∉ stem ++ ".json".toList := by
      rw [List.mem_append, not_or]
      exact ⟨hstem, by decide⟩
    have hpos : 0 < stem.length := List.length_pos_of_ne_nil hne
    rw [hpath, isJsonPath, fileName_append hfolder hname, Bool.and_eq_true,
      List.isSuffixOf_iff_suffix, decide_eq_true_eq]
    refine ⟨List.suffix_append stem _, ?_⟩
    rw [List.length_append]
    change 5 < stem.length + 5
    omega

/-! ## Files -/

variable {d : Directory} {path : String} {settings : Option String} {g : Group}

/-- The settings in the file that is named; without one every attribute is searched. -/
def SettingsAt (d : Directory) (settings : Option String) (s : Settings) : Prop :=
  match settings with
  | none => s = .everything
  | some path => ∃ text, d.read? path = some text ∧ Toml.readSettings? text = some s

/-- The definition in a file, JSON or YAML by its extension. -/
def GroupAt (d : Directory) (path : String) (g : Group) : Prop :=
  ∃ text, d.read? path = some text ∧
    (HasExtensionJson path ∧ Json.readGroup text = .ok g ∨
      ¬ HasExtensionJson path ∧ Yaml.readGroup text = .ok g)

theorem GroupAt.unique {h : Group} (hg : GroupAt d path g) (hh : GroupAt d path h) : g = h := by
  obtain ⟨text, htext, hg⟩ := hg
  obtain ⟨text', htext', hh⟩ := hh
  obtain rfl : text = text' := Option.some.inj (htext.symm.trans htext')
  rcases hg with ⟨hjson, hg⟩ | ⟨hyaml, hg⟩ <;> rcases hh with ⟨hjson', hh⟩ | ⟨hyaml', hh⟩
  · exact Except.ok.inj (hg.symm.trans hh)
  · exact absurd hjson hyaml'
  · exact absurd hjson' hyaml
  · exact Except.ok.inj (hg.symm.trans hh)

def settingsStages (d : Directory) : Option String → List Stage
  | none => []
  | some path =>
    [⟨∃ text, d.read? path = some text, (· = .unreadableSettings path)⟩,
      ⟨∃ s, SettingsAt d (some path) s, (· = .malformedSettings path)⟩]

def definitionStages (d : Directory) (path : String) : List Stage :=
  [⟨∃ text, d.read? path = some text, (· = .unreadableDefinition path)⟩,
    ⟨∃ g, GroupAt d path g, fun p =>
      HasExtensionJson path ∧ p = .malformedDefinition "JSON" path ∨
        ¬ HasExtensionJson path ∧ p = .malformedDefinition "YAML" path⟩]

theorem loadSettings_some (d : Directory) (path : String) :
    loadSettings d (some path) =
      demand (.unreadableSettings path) (d.read? path) >>= fun text =>
        demand (.malformedSettings path) (Toml.readSettings? text) := by
  cases hread : d.read? path with
  | none => simp only [loadSettings, hread]; rfl
  | some text =>
      simp only [loadSettings, hread]
      change _ = demand (.malformedSettings path) (Toml.readSettings? text)
      cases Toml.readSettings? text <;> rfl

theorem loadSettings_follows (d : Directory) (settings : Option String) :
    Follows (loadSettings d settings) (settingsStages d settings) (SettingsAt d settings) := by
  cases settings with
  | none =>
      refine ⟨fun _ => ⟨.everything, rfl, rfl⟩, fun s hs => ?_⟩
      cases hs
  | some path =>
      rw [loadSettings_some]
      refine (follows_demand Iff.rfl rfl).cons fun text htext => ?_
      refine (follows_demand ?_ rfl).imp fun s hs => ⟨text, htext, hs⟩
      simp [SettingsAt, htext]

theorem loadGroup_eq (d : Directory) (path : String) :
    loadGroup d path =
      demand (.unreadableDefinition path) (d.read? path) >>= fun text =>
        if isJsonPath path.toList then
          (Json.readGroup text).mapError fun _ => .malformedDefinition "JSON" path
        else (Yaml.readGroup text).mapError fun _ => .malformedDefinition "YAML" path := by
  rw [loadGroup]
  cases d.read? path <;> rfl

/-- A reader that tells the same problem of all its failures. -/
theorem follows_mapError {ε : Type} {e : Except ε α} {p : Problem}
    (hs : s.Succeeds ↔ ∃ a, e = .ok a) (hp : s.Reports p) :
    Follows (e.mapError fun _ => p) [s] (e = .ok ·) := by
  apply follows_singleton
  · intro h
    obtain ⟨a, rfl⟩ := hs.mp h
    exact ⟨a, rfl, rfl⟩
  · intro h
    cases e with
    | error e => exact ⟨p, hp, rfl⟩
    | ok a => exact absurd (hs.mpr ⟨a, rfl⟩) h

theorem loadGroup_follows (d : Directory) (path : String) :
    Follows (loadGroup d path) (definitionStages d path) (GroupAt d path) := by
  rw [loadGroup_eq]
  refine (follows_demand Iff.rfl rfl).cons fun text htext => ?_
  by_cases hjson : HasExtensionJson path
  · rw [if_pos (isJsonPath_iff.mpr hjson)]
    refine (follows_mapError ?_ (Or.inl ⟨hjson, rfl⟩)).imp fun g hg =>
      ⟨text, htext, Or.inl ⟨hjson, hg⟩⟩
    simp [GroupAt, htext, hjson]
  · rw [if_neg (isJsonPath_iff.not.mpr hjson)]
    refine (follows_mapError ?_ (Or.inr ⟨hjson, rfl⟩)).imp fun g hg =>
      ⟨text, htext, Or.inr ⟨hjson, hg⟩⟩
    simp [GroupAt, htext, hjson]

/-! ## Arguments -/

variable {declared : List Declared} {supplied : List (String × String)}

/-- The names of the required arguments without a value, in the order of their declarations. -/
def missingNames (declared : List Declared) (supplied : List (String × String)) : List String :=
  (declared.filter fun a => a.value.isNone && !(supplied.map Prod.fst).contains a.name).map
    Declared.name

theorem missingNames_eq_nil_iff : missingNames declared supplied = [] ↔
    ∀ a ∈ declared, a.value = none → a.name ∈ supplied.map Prod.fst := by
  rw [missingNames, List.map_eq_nil_iff, List.filter_eq_nil_iff]
  refine forall₂_congr fun a _ => ?_
  simp

theorem get?_overrides_eq_none_iff {name : String} :
    (overrides supplied).get? name = none ↔ name ∉ supplied.map Prod.fst := by
  rw [overrides, OrderedMap.get?_ofList, List.findRev?_eq_find?_reverse, Option.map_eq_none_iff,
    List.find?_eq_none, List.mem_map, not_exists]
  refine forall_congr' fun e => ?_
  simp

theorem missingNames_eq (declared : List Declared) (supplied : List (String × String)) :
    missingNames declared supplied =
      (declared.filter fun a => a.IsMissing (overrides supplied)).map Declared.name := by
  refine congrArg (List.map Declared.name) (List.filter_congr fun a _ => ?_)
  rw [Bool.eq_iff_iff, decide_eq_true_iff, Declared.IsMissing, get?_overrides_eq_none_iff]
  simp [and_comm]

theorem resolve_overrides (group : String) (declared : List Declared)
    (supplied : List (String × String)) :
    (missingNames declared supplied = [] →
        ∃ t, resolve group declared (overrides supplied) = .ok t) ∧
      (missingNames declared supplied ≠ [] → resolve group declared (overrides supplied) =
        .error ⟨group, missingNames declared supplied⟩) := by
  rw [missingNames_eq, ne_eq, List.map_eq_nil_iff, List.filter_eq_nil_iff]
  simp only [decide_eq_true_eq]
  constructor
  · exact fun h => ⟨_, resolve_of_forall_not_isMissing group h⟩
  · exact fun h => resolve_of_isMissing group (by simpa using h)

def argumentsStage (d : Directory) (path : String) (supplied : List (String × String)) : Stage where
  Succeeds := ∀ g, GroupAt d path g → ∀ a ∈ g.arguments, a.value = none →
    a.name ∈ supplied.map Prod.fst
  Reports p := ∃ g, GroupAt d path g ∧
    p = .missingArguments ⟨g.name, missingNames g.arguments supplied⟩

theorem invokeWith_follows (hg : GroupAt d path g) (s : Settings)
    (supplied : List (String × String)) (key : String) :
    Follows ((g.invokeWith .linked s (overrides supplied) key).mapError .missingArguments)
      [argumentsStage d path supplied]
      (g.invokeWith .linked s (overrides supplied) key = .ok ·) := by
  obtain ⟨hok, herror⟩ := resolve_overrides g.name g.arguments supplied
  apply follows_singleton
  · intro h
    obtain ⟨t, ht⟩ := hok (missingNames_eq_nil_iff.mpr (h g hg))
    rw [Group.invokeWith_of_ok ht]
    exact ⟨_, rfl, rfl⟩
  · intro h
    have hmissing : missingNames g.arguments supplied ≠ [] := by
      intro hnil
      apply h
      intro g' hg'
      rw [hg'.unique hg]
      exact missingNames_eq_nil_iff.mp hnil
    rw [Group.invokeWith_of_error (herror hmissing)]
    exact ⟨_, ⟨g, hg, rfl⟩, rfl⟩

/-! ## Commands -/

variable {c : Command} {environment : Option String} {words : List String}

def Command.stages (d : Directory) : Command → List Stage
  | keys definition => definitionStages d definition
  | resolve definition _ arguments settings =>
    settingsStages d settings ++ (definitionStages d definition ++
      [argumentsStage d definition arguments])

/-- What a command prints when none of its stages fails. The list of the environment goes before the
settings, and what is printed of steps is a document of them. -/
inductive Command.Prints (d : Directory) (environment : Option String) :
    Command → String → Prop where
  | keys (definition : String) (g : Group) (hg : GroupAt d definition g) :
      Prints d environment (keys definition) (String.join (g.stepKeys.map (· ++ "\n")))
  | resolve (definition key : String) (arguments : List (String × String))
      (settings : Option String) (s : Settings) (g : Group) (steps : List Step)
      (hs : SettingsAt d settings s) (hg : GroupAt d definition g)
      (hsteps : g.invokeWith .linked (s.override environment) (OrderedMap.ofList arguments) key =
        .ok steps)
      (hdocument : Json.IsDocument (Json.ofList Json.ofStep steps)
        (Json.prettyText (Json.ofList Json.ofStep steps) ++ "\n")) :
      Prints d environment (resolve definition key arguments settings)
        (Json.prettyText (Json.ofList Json.ofStep steps) ++ "\n")

theorem run_follows (d : Directory) (environment : Option String) (c : Command) :
    Follows (c.run d environment) (c.stages d) (c.Prints d environment) := by
  cases c with
  | keys definition =>
      exact (loadGroup_follows d definition).map fun g hg => .keys definition g hg
  | resolve definition key arguments settings =>
      refine (loadSettings_follows d settings).bind fun s hs => ?_
      refine (loadGroup_follows d definition).bind fun g hg => ?_
      have hsteps := invokeWith_follows hg (s.override environment) arguments key
      refine hsteps.map fun steps h => ?_
      have hdocument := Json.isDocument_prettyText (Json.isPlain_ofList Json.isPlain_ofStep steps)
      exact .resolve definition key arguments settings s g steps hs hg h hdocument

theorem exitCode_of_definition (hs : s ∈ definitionStages d path) {p : Problem}
    (hp : s.Reports p) : p.exitCode = 1 := by
  simp only [definitionStages, List.mem_cons, List.not_mem_nil, or_false] at hs
  rcases hs with rfl | rfl
  · obtain rfl : p = .unreadableDefinition path := hp
    rfl
  · rcases hp with ⟨-, rfl⟩ | ⟨-, rfl⟩ <;> rfl

theorem exitCode_of_settings (hs : s ∈ settingsStages d settings) {p : Problem}
    (hp : s.Reports p) : p.exitCode = 1 := by
  cases settings with
  | none => simp [settingsStages] at hs
  | some path =>
      simp only [settingsStages, List.mem_cons, List.not_mem_nil, or_false] at hs
      rcases hs with rfl | rfl
      · obtain rfl : p = .unreadableSettings path := hp
        rfl
      · obtain rfl : p = .malformedSettings path := hp
        rfl

theorem exitCode_of_reports (hs : s ∈ c.stages d) {p : Problem} (hp : s.Reports p) :
    p.exitCode = 1 := by
  cases c with
  | keys definition => exact exitCode_of_definition hs hp
  | resolve definition key arguments settings =>
      rcases List.mem_append.mp hs with hs | hs
      · exact exitCode_of_settings hs hp
      · rcases List.mem_append.mp hs with hs | hs
        · exact exitCode_of_definition hs hp
        · obtain rfl := List.mem_singleton.mp hs
          obtain ⟨g, -, rfl⟩ := hp
          rfl

theorem outcome_of_not_asked (h : ∀ c : Command, ¬ c.IsAskedBy words) (d : Directory)
    (environment : Option String) : outcome d environment words = ⟨2, "", some "usage"⟩ := by
  have hnone : Command.ofWords? words = none := by
    refine Option.eq_none_iff_forall_ne_some.mpr fun c hc => ?_
    exact h c (Command.ofWords?_eq_some_iff.mp hc)
  rw [outcome, run, hnone]
  rfl

theorem outcome_of_asked (h : c.IsAskedBy words) (d : Directory) (environment : Option String) :
    outcome d environment words = Outcome.ofResult (c.run d environment) := by
  rw [outcome, run, Command.ofWords?_eq_some_iff.mpr h]

/-- Words that ask for no command are refused, whatever the files are. A command prints what it is
to print if all its stages succeed; else it prints nothing and tells of the first that fails. -/
theorem outcome_all_or_nothing (words : List String) :
    ((∀ c : Command, ¬ c.IsAskedBy words) → ∀ d environment,
      outcome d environment words = ⟨2, "", some "usage"⟩) ∧
    ∀ c : Command, c.IsAskedBy words → ∀ d environment,
      ((outcome d environment words).exitCode = 0 ↔ ∀ s ∈ c.stages d, s.Succeeds) ∧
      ((∀ s ∈ c.stages d, s.Succeeds) → ∃ text, c.Prints d environment text ∧
        outcome d environment words = ⟨0, text, none⟩) ∧
      ∀ s, FailsFirst s (c.stages d) → ∃ p, s.Reports p ∧
        outcome d environment words = ⟨1, "", some p.message⟩ := by
  refine ⟨outcome_of_not_asked, fun c hc d environment => ?_⟩
  have hfollows := run_follows d environment c
  have hok : (∀ s ∈ c.stages d, s.Succeeds) → ∃ text, c.Prints d environment text ∧
      outcome d environment words = ⟨0, text, none⟩ := by
    intro hall
    obtain ⟨text, hrun, hprints⟩ := hfollows.ok hall
    refine ⟨text, hprints, ?_⟩
    rw [outcome_of_asked hc, hrun]
    rfl
  have herror : ∀ s, FailsFirst s (c.stages d) → ∃ p, s.Reports p ∧
      outcome d environment words = ⟨1, "", some p.message⟩ := by
    intro s hs
    obtain ⟨p, hp, hrun⟩ := hfollows.error s hs
    refine ⟨p, hp, ?_⟩
    rw [outcome_of_asked hc, hrun, Outcome.ofResult, exitCode_of_reports hs.mem hp]
  refine ⟨⟨fun hzero => ?_, fun hall => ?_⟩, hok, herror⟩
  · -- a stage that fails would leave another exit code
    rcases all_succeed_or_failsFirst (c.stages d) with hall | ⟨s, hs⟩
    · exact hall
    · obtain ⟨p, -, houtcome⟩ := herror s hs
      simp [houtcome] at hzero
  · obtain ⟨text, -, houtcome⟩ := hok hall
    rw [houtcome]

def greetText : String :=
  "\x7b\"name\":\"Greet\",\"arguments\":[\x7b\"name\":\"user\"\x7d],\"actions\":[" ++
    "\x7b\"stepKey\":\"hello\",\"type\":\"see\"\x7d]\x7d"

/-- The argument of the group has no default. -/
def greet : Group where
  name := "Greet"
  arguments := [⟨"user", none, .entity⟩]
  actions := [⟨"hello", "see", .empty, none, 0, .empty⟩]

def desk : Directory := ⟨[("greet.json", greetText)]⟩

theorem groupAt_desk : GroupAt desk "greet.json" greet :=
  ⟨greetText, by decide, Or.inl ⟨isJsonPath_iff.mp (by decide), by decide +kernel⟩⟩

/-- The step of the group under the key `A`. -/
def greeted : Step where
  key := "helloA"
  action := "see"
  attributes := .empty
  link := none
  offset := 0
  origin := OrderedMap.ofList [("actionGroupName", "Greet"), ("testInvocationRef", "A")]

def greetedText : String :=
  "[\n  \x7b\n    \"stepKey\": \"helloA\",\n    \"type\": \"see\",\n" ++
    "    \"attributes\": \x7b\x7d,\n    \"orderOffset\": 0,\n    \"actionOrigin\": \x7b\n" ++
    "      \"actionGroupName\": \"Greet\",\n      \"testInvocationRef\": \"A\"\n    \x7d\n" ++
    "  \x7d\n]\n"

theorem invokeWith_greet : greet.invokeWith .linked (Settings.everything.override none)
    (overrides [("user", "Ann")]) "A" = .ok [greeted] := by
  decide +kernel

theorem prettyText_greeted :
    Json.prettyText (Json.ofList Json.ofStep [greeted]) ++ "\n" = greetedText := by
  decide +kernel

theorem outcome_all_or_nothing_desk :
    (∀ d environment, outcome d environment ["keys"] = ⟨2, "", some "usage"⟩) ∧
    outcome desk none ["keys", "-d", "greet.json"] = ⟨0, "hello\n", none⟩ ∧
    outcome desk none ["resolve", "-dgreet.json", "-kA", "-auser=Ann"] = ⟨0, greetedText, none⟩ ∧
    outcome desk none ["resolve", "-dgreet.json", "-kA"] =
      ⟨1, "", some "Arguments missed (user) for actionGroup \"Greet\""⟩ ∧
    outcome desk none ["resolve", "-dmissing.json", "-kA", "-cmissing.toml"] =
      ⟨1, "", some "Failed to read resolver config: missing.toml"⟩ := by
  have hread : ∃ text, desk.read? "greet.json" = some text := ⟨greetText, by decide⟩
  have hload : ∀ s ∈ definitionStages desk "greet.json", s.Succeeds := by
    simp only [definitionStages, List.forall_mem_cons, List.not_mem_nil, false_imp_iff,
      implies_true, and_true]
    exact ⟨hread, greet, groupAt_desk⟩
  refine ⟨?_, ?_, ?_, ?_, ?_⟩
  · refine (outcome_all_or_nothing _).1 fun c hc => ?_
    have hnone : Command.ofWords? ["keys"] = none := by decide
    simp [Command.ofWords?_eq_some_iff.mpr hc] at hnone
  · have hasked : (Command.keys "greet.json").IsAskedBy ["keys", "-d", "greet.json"] :=
      Command.ofWords?_eq_some_iff.mp (by decide +kernel)
    obtain ⟨-, hok, -⟩ := (outcome_all_or_nothing _).2 _ hasked desk none
    obtain ⟨text, hprints, houtcome⟩ := hok hload
    cases hprints with
    | keys _ g hg =>
        obtain rfl := hg.unique groupAt_desk
        exact houtcome
  · have hasked : (Command.resolve "greet.json" "A" [("user", "Ann")] none).IsAskedBy
        ["resolve", "-dgreet.json", "-kA", "-auser=Ann"] :=
      Command.ofWords?_eq_some_iff.mp (by decide +kernel)
    obtain ⟨-, hok, -⟩ := (outcome_all_or_nothing _).2 _ hasked desk none
    have hgiven : (argumentsStage desk "greet.json" [("user", "Ann")]).Succeeds := by
      intro g hg
      obtain rfl := hg.unique groupAt_desk
      decide
    have hbehind := List.forall_mem_append.mpr ⟨hload, List.forall_mem_singleton.mpr hgiven⟩
    obtain ⟨text, hprints, houtcome⟩ :=
      hok (List.forall_mem_append.mpr ⟨List.forall_mem_nil _, hbehind⟩)
    cases hprints with
    | resolve _ _ _ _ s g steps hs hg hsteps hdocument =>
        obtain rfl : s = .everything := hs
        obtain rfl := hg.unique groupAt_desk
        obtain rfl : steps = [greeted] := Except.ok.inj (hsteps.symm.trans invokeWith_greet)
        rw [houtcome, prettyText_greeted]
  · have hasked : (Command.resolve "greet.json" "A" [] none).IsAskedBy
        ["resolve", "-dgreet.json", "-kA"] := Command.ofWords?_eq_some_iff.mp (by decide +kernel)
    obtain ⟨-, -, herror⟩ := (outcome_all_or_nothing _).2 _ hasked desk none
    have hfails : FailsFirst (argumentsStage desk "greet.json" [])
        (Command.stages desk (.resolve "greet.json" "A" [] none)) := by
      refine .later _ _ hread (.later _ _ ⟨greet, groupAt_desk⟩ (.here _ ?_))
      intro h
      exact absurd (h greet groupAt_desk _ List.mem_cons_self rfl) (by decide)
    obtain ⟨p, ⟨g, hg, rfl⟩, houtcome⟩ := herror _ hfails
    obtain rfl := hg.unique groupAt_desk
    exact houtcome
  · have hasked : (Command.resolve "missing.json" "A" [] (some "missing.toml")).IsAskedBy
        ["resolve", "-dmissing.json", "-kA", "-cmissing.toml"] :=
      Command.ofWords?_eq_some_iff.mp (by decide +kernel)
    obtain ⟨-, -, herror⟩ := (outcome_all_or_nothing _).2 _ hasked desk none
    have hmissing : ¬ ∃ text, desk.read? "missing.toml" = some text := by
      have hnone : desk.read? "missing.toml" = none := by decide
      simp [hnone]
    obtain ⟨p, rfl, houtcome⟩ := herror _ (.here _ hmissing)
    exact houtcome

end CommandLine

end StepTemplate
