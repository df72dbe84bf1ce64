import StepTemplate.Proofs.CommandLine.Invocation

namespace StepTemplate

/-!
# The attribute list of the environment

A list of attributes from the environment takes the place of the one in the settings, whatever that
was. Blanks around its names and blank pieces between its commas do not count.
-/

namespace Settings

open Text

variable {names : List String} {name : String}

/-- The text is a list of the names in their order: between its commas stand the names, each
between blanks, and any number of blank pieces. -/
def Lists (names : List String) (text : String) : Prop :=
  ∃ pieces, Holds pieces (names.map String.toList) ∧ text.toList = [','].intercalate pieces

theorem override_of_lists {text : String} (hnames : ∀ name ∈ names, IsName ',' name.toList)
    (h : Lists names text) (s : Settings) : s.override (some text) = ⟨names⟩ := by
  obtain ⟨pieces, hpieces, htext⟩ := h
  rw [override, htext, hpieces.commaList_eq (List.forall_mem_map.mpr hnames), List.map_map]
  simp

theorem isName_of_mem_override {s : Settings} {text : String}
    (h : name ∈ (s.override (some text)).variableAttributes) : IsName ',' name.toList := by
  obtain ⟨e, he, rfl⟩ := List.mem_map.mp h
  rw [String.toList_ofList]
  exact isName_of_mem_commaList he

theorem lists_intercalate (names : List String) : Lists names (",".intercalate names) := by
  refine ⟨names.map String.toList, holds_self _, ?_⟩
  rw [String.toList_intercalate]
  rfl

end Settings

namespace CommandLine

open Settings Text

/-- A list of names from the environment replaces the list of the settings by just these names, and
any other text by names that are read back when they are joined. So a command line prints the
steps of an invocation under the list of the environment, whatever the settings say. -/
theorem override_exact :
    (∀ (names : List String) (text : String) (s : Settings),
      (∀ name ∈ names, IsName ',' name.toList) → Lists names text →
        s.override (some text) = ⟨names⟩) ∧
    (∀ (text : String) (s : Settings),
      (∀ name ∈ (s.override (some text)).variableAttributes, IsName ',' name.toList) ∧
      ∀ s' : Settings, s'.override
        (some (",".intercalate (s.override (some text)).variableAttributes)) =
          s.override (some text)) ∧
    ∀ (d : Directory) (words : List String) (definition key : String)
      (pairs : List (String × String)) (settings : Option String) (g : Group)
      (o : Group.Overrides) (names : List String) (text : String),
      (Command.resolve definition key pairs settings).IsAskedBy words →
      (∃ s, SettingsAt d settings s) → GroupAt d definition g → LastWins pairs o →
      (∀ name ∈ names, IsName ',' name.toList) → Lists names text →
        outcome d (some text) words = .ofSteps (g.invokeWith .linked ⟨names⟩ o key) := by
  refine ⟨fun names text s hnames h => override_of_lists hnames h s, fun text s => ?_, ?_⟩
  · have hnames : ∀ name ∈ (s.override (some text)).variableAttributes, IsName ',' name.toList :=
      fun name hname => isName_of_mem_override hname
    exact ⟨hnames, fun s' => override_of_lists hnames (lists_intercalate _) s'⟩
  · rintro d words definition key pairs settings g o names text hasked ⟨s, hs⟩ hg ho hnames h
    rw [outcome_resolve hasked hs hg (some text) ho, override_of_lists hnames h]

/-- The desk with settings that name another attribute. -/
def settledDesk : Directory :=
  ⟨("c.toml", "variable_attributes = [\"url\"]") :: desk.files⟩

theorem lists_value_user : Lists ["value", "user"] " value ,,\tuser\n, " :=
  ⟨_, .entry " ".toList "value".toList " ".toList _ _ (by simp [isBlank]) (by simp [isBlank])
    (.blank "".toList _ _ (by simp [isBlank])
      (.entry "\t".toList "user".toList "\n".toList _ _ (by simp [isBlank]) (by simp [isBlank])
        (.blank " ".toList _ _ (by simp [isBlank]) .nil))), by decide⟩

theorem override_exact_desk :
    (∀ name ∈ ["value", "user"], IsName ',' name.toList) ∧
    Lists ["value", "user"] " value ,,\tuser\n, " ∧
    standard.override (some " value ,,\tuser\n, ") = ⟨["value", "user"]⟩ ∧
    SettingsAt settledDesk (some "c.toml") ⟨["url"]⟩ ∧ GroupAt settledDesk "greet.json" greet ∧
    outcome settledDesk (some " value ,,\tuser\n, ")
      ["resolve", "-dgreet.json", "-kA", "-auser=x", "-cc.toml"] =
        .ofSteps
          (greet.invokeWith .linked ⟨["value", "user"]⟩ (overrides [("user", "x")]) "A") := by
  have hnames : ∀ name ∈ ["value", "user"], IsName ',' name.toList := by decide
  have hsettings : SettingsAt settledDesk (some "c.toml") ⟨["url"]⟩ :=
    ⟨_, rfl, by decide +kernel⟩
  have hgroup : GroupAt settledDesk "greet.json" greet :=
    ⟨greetText, by decide, Or.inl ⟨isJsonPath_iff.mp (by decide), by decide +kernel⟩⟩
  have hasked : (Command.resolve "greet.json" "A" [("user", "x")] (some "c.toml")).IsAskedBy
      ["resolve", "-dgreet.json", "-kA", "-auser=x", "-cc.toml"] :=
    Command.ofWords?_eq_some_iff.mp (by decide +kernel)
  obtain ⟨hoverride, -, houtcome⟩ := override_exact
  exact ⟨hnames, lists_value_user, hoverride _ _ standard hnames lists_value_user, hsettings,
    hgroup, houtcome _ _ _ _ _ _ _ _ _ _ hasked ⟨_, hsettings⟩ hgroup (lastWins_overrides _)
      hnames lists_value_user⟩

end CommandLine

end StepTemplate
