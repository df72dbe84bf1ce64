import StepTemplate.Group
import StepTemplate.Proofs.Sequence.Renaming

namespace StepTemplate

/-!
# What an invocation makes of the steps of a group

Each key under which a group declares steps leads to one step of an invocation, which comes from
the step declared last with that key. The way of ordering moves steps and changes none.
-/

namespace Step

theorem namespacedKey_injective (invocation : String) :
    Function.Injective (namespacedKey · invocation) := by
  intro k l h
  exact (String.append_left_inj _).mp h

end Step

namespace Sequencing

open Step

theorem renames_inNamespace (group invocation : String) :
    Renames (namespacedKey · invocation) (·.inNamespace group invocation) :=
  ⟨namespacedKey_injective invocation, fun _ => rfl, fun _ => rfl, fun _ => rfl⟩

theorem renames_expandStep (g : Group) (settings : Settings) (t : Argument.Table)
    (invocation : String) :
    Renames (namespacedKey · invocation) (g.expandStep settings t invocation) :=
  ⟨namespacedKey_injective invocation, fun _ => rfl, fun _ => rfl, fun _ => rfl⟩

end Sequencing

namespace Group

open Argument Sequencing Step Text

variable {g : Group} {settings : Settings} {overrides : Overrides} {t : Table}

/-- The step that a group declares last with a key. -/
def lastDeclared? (g : Group) (key : String) : Option Step :=
  g.actions.findRev? (·.key == key)

/-- The image of a declared step in an invocation has the key and the link in the namespace of the
invocation, and the origin tells of the invocation alone. Of the attributes those that are searched
have new values; everything else is as declared. -/
structure IsImage (g : Group) (settings : Settings) (t : Table) (invocation : String)
    (s image : Step) : Prop where
  key : image.key = namespacedKey s.key invocation
  link : image.link = s.link.map (namespacedKey · invocation)
  action : image.action = s.action
  offset : image.offset = s.offset
  attributes : image.attributes.entries = s.attributes.entries.map fun e =>
    (e.1, if settings.variableAttributes = [] ∨ e.1 ∈ settings.variableAttributes then
      t.substituteAll e.2 else e.2)
  origin : image.origin.entries =
    [("actionGroupName", g.name), ("testInvocationRef", invocation)]

theorem isImage_expandStep (g : Group) (settings : Settings) (t : Table) (invocation : String)
    (s : Step) : g.IsImage settings t invocation s (g.expandStep settings t invocation s) := by
  refine ⟨rfl, rfl, rfl, rfl, ?_, rfl⟩
  refine List.map_congr_left fun e _ => ?_
  simp [Settings.isVariable]

theorem expand_of_ok (h : resolve g.name g.arguments overrides = .ok t) (invocation : String) :
    g.expand settings overrides invocation =
      .ok (keyed (g.actions.map (g.expandStep settings t invocation))) := by
  rw [expand, h, keyed, List.map_map]
  rfl

theorem invokeWith_of_ok (h : resolve g.name g.arguments overrides = .ok t) (mode : Sequencing)
    (invocation : String) :
    g.invokeWith mode settings overrides invocation =
      .ok (mode.sequence (keyed (g.actions.map (g.expandStep settings t invocation)))) := by
  rw [invokeWith, expand_of_ok h]
  rfl

theorem expand_of_error {e : Missing} (h : resolve g.name g.arguments overrides = .error e)
    (invocation : String) : g.expand settings overrides invocation = .error e := by
  rw [expand, h]
  rfl

theorem invokeWith_of_error {e : Missing} (h : resolve g.name g.arguments overrides = .error e)
    (mode : Sequencing) (invocation : String) :
    g.invokeWith mode settings overrides invocation = .error e := by
  rw [invokeWith, expand_of_error h]
  rfl

/-- If arguments are missing, an invocation fails with that error. Otherwise it yields one step for
each key that the group declares, the image of the step declared last with the key, and no other
step. They are kept by their new keys in the order in which the old ones were declared first; so
they come in the final order too, unless links move them. -/
theorem invokeWith_exact (g : Group) (mode : Sequencing) (settings : Settings)
    (overrides : Overrides) (invocation : String) :
    (∀ e, resolve g.name g.arguments overrides = .error e →
      g.expand settings overrides invocation = .error e ∧
        g.invokeWith mode settings overrides invocation = .error e) ∧
    ∀ t, resolve g.name g.arguments overrides = .ok t →
      ∃ images m steps,
        List.Forall₂ (fun key image => ∃ s, g.lastDeclared? key = some s ∧
          g.IsImage settings t invocation s image) g.stepKeys.eraseDups images ∧
        g.expand settings overrides invocation = .ok m ∧
        m.entries = images.map (fun s => (s.key, s)) ∧
        g.invokeWith mode settings overrides invocation = .ok steps ∧
        steps.Perm images ∧ (mode = .declared → steps = images) := by
  refine ⟨fun e h => ⟨expand_of_error h invocation, invokeWith_of_error h mode invocation⟩, ?_⟩
  intro t h
  have hvalues := (renames_expandStep g settings t invocation).values_keyed_map g.actions
  refine ⟨(keyed g.actions).values.map (g.expandStep settings t invocation), _, _, ?_,
    expand_of_ok h invocation, ?_, invokeWith_of_ok h mode invocation, ?_, ?_⟩
  · have hdeclared := OrderedMap.forall₂_keys_values (keyed g.actions)
    rw [keys_keyed] at hdeclared
    rw [List.forall₂_map_right_iff]
    refine hdeclared.imp fun key s hs => ⟨s, ?_, isImage_expandStep g settings t invocation s⟩
    rw [lastDeclared?, ← get?_keyed, hs]
  · rw [entries_keyed, hvalues]
  · rw [← hvalues]
    exact sequence_perm mode _
  · rintro rfl
    rw [Sequencing.sequence, hvalues]

/-! ## A group with a key declared twice -/

def fillUser : Step :=
  ((plain "fill").withAttribute "url" "\x7b\x7bpage.url\x7d\x7d").withAttribute "value"
    "\x7b\x7buser\x7d\x7d"

/-- The step `fill` is declared twice, and `wait` is to follow it. -/
def login : Group where
  name := "Login"
  arguments := [⟨"user", none, .string⟩, ⟨"page", some "Home", .entity⟩]
  actions := [(plain "wait").after "fill", plain "fill", fillUser]

def admin : Overrides :=
  OrderedMap.ofList [("user", "admin")]

def adminTable : Table :=
  Table.ofList [⟨"user", "admin", .string⟩, ⟨"page", "Home", .entity⟩]

theorem invokeWith_exact_login :
    resolve login.name login.arguments OrderedMap.empty = .error ⟨"Login", ["user"]⟩ ∧
    login.invokeWith .linked ⟨["value"]⟩ OrderedMap.empty "ßx" = .error ⟨"Login", ["user"]⟩ ∧
    resolve login.name login.arguments admin = .ok adminTable ∧
    ∃ wait fill steps, login.invokeWith .linked ⟨["value"]⟩ admin "ßx" = .ok steps ∧
      steps.Perm [wait, fill] ∧ wait.key = "waitSSx" ∧ wait.link = some "fillSSx" ∧
      fill.key = "fillSSx" ∧ fill.attributes.entries =
        [("url", "\x7b\x7bpage.url\x7d\x7d"), ("value", "admin")] ∧
      fill.origin.entries = [("actionGroupName", "Login"), ("testInvocationRef", "ßx")] := by
  have hmissing : resolve login.name login.arguments OrderedMap.empty =
      .error ⟨"Login", ["user"]⟩ := rfl
  have hresolve : resolve login.name login.arguments admin = .ok adminTable := rfl
  have hkeys : login.stepKeys.eraseDups = ["wait", "fill"] := by decide
  have hvalue : adminTable.substituteAll "\x7b\x7buser\x7d\x7d" = "admin" := by decide
  obtain ⟨herror, -⟩ := invokeWith_exact login .linked ⟨["value"]⟩ OrderedMap.empty "ßx"
  obtain ⟨-, hok⟩ := invokeWith_exact login .linked ⟨["value"]⟩ admin "ßx"
  obtain ⟨images, m, steps, himages, -, -, hsteps, hperm, -⟩ := hok adminTable hresolve
  rw [hkeys] at himages
  obtain ⟨wait, images', ⟨s, hs, hwait⟩, hrest, rfl⟩ := List.forall₂_cons_left_iff.mp himages
  obtain ⟨fill, images'', ⟨u, hu, hfill⟩, hnil, rfl⟩ := List.forall₂_cons_left_iff.mp hrest
  obtain rfl := List.forall₂_nil_left_iff.mp hnil
  have hs' : login.lastDeclared? "wait" = some ((plain "wait").after "fill") := by decide
  have hu' : login.lastDeclared? "fill" = some fillUser := by decide
  obtain rfl : (plain "wait").after "fill" = s := Option.some.inj (hs'.symm.trans hs)
  obtain rfl : fillUser = u := Option.some.inj (hu'.symm.trans hu)
  refine ⟨hmissing, (herror _ hmissing).2, hresolve, wait, fill, steps, hsteps, hperm, ?_, ?_, ?_,
    ?_, hfill.origin⟩
  · rw [hwait.key]
    decide
  · rw [hwait.link]
    decide
  · rw [hfill.key]
    decide
  · rw [hfill.attributes, ← hvalue]
    rfl

/-! ## Invocations under different keys -/

/-- It does not matter whether steps are ordered by their links before or after they are put into a
namespace. So the steps of two invocations with the same arguments stand in the same order and
differ in keys, links and the mark of their invocation alone. -/
theorem sequence_inNamespace :
    (∀ (actions : List Step) (group invocation : String),
      linked.sequence (keyed (actions.map (·.inNamespace group invocation))) =
        (linked.sequence (keyed actions)).map (·.inNamespace group invocation)) ∧
    ∀ (g : Group) (mode : Sequencing) (settings : Settings) (overrides : Overrides),
      (∃ e, ∀ invocation, g.invokeWith mode settings overrides invocation = .error e) ∨
      ∃ base : List Step, ∀ invocation, g.invokeWith mode settings overrides invocation =
        .ok (base.map fun s => { s with
          key := namespacedKey s.key invocation
          link := s.link.map (namespacedKey · invocation)
          origin := stamp g.name invocation }) := by
  refine ⟨fun actions group invocation =>
    (renames_inNamespace group invocation).sequence_keyed_map linked actions, ?_⟩
  intro g mode settings overrides
  cases h : resolve g.name g.arguments overrides with
  | error e => exact Or.inl ⟨e, invokeWith_of_error h mode⟩
  | ok t =>
      refine Or.inr ⟨mode.sequence (keyed (g.actions.map (substituteStep settings t))), ?_⟩
      intro invocation
      have hexpand : g.actions.map (g.expandStep settings t invocation) =
          (g.actions.map (substituteStep settings t)).map (·.inNamespace g.name invocation) := by
        rw [List.map_map]
        rfl
      rw [invokeWith_of_ok h, hexpand,
        (renames_inNamespace g.name invocation).sequence_keyed_map mode]
      rfl

end Group

end StepTemplate
