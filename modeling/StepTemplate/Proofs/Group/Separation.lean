import StepTemplate.Proofs.Group.Expansion

namespace StepTemplate

/-!
# Invocations of a group side by side

A namespace is nothing but a suffix, so a step key under one suffix can equal a longer step key
under another. If no step key begins with another one, this cannot happen, and invocations whose
capitalised keys differ share no step key.
-/

namespace Step

open Text

variable {k l a b : String}

theorem toList_namespacedKey (k a : String) :
    (namespacedKey k a).toList = k.toList ++ capitalize a.toList := by
  simp [namespacedKey]

/-- Two keys in two namespaces are equal if one key continues the other by as much as the suffix of
its own namespace is shorter. -/
theorem namespacedKey_eq_iff :
    namespacedKey k a = namespacedKey l b ↔
      (∃ t, l.toList = k.toList ++ t ∧ capitalize a.toList = t ++ capitalize b.toList) ∨
        ∃ t, k.toList = l.toList ++ t ∧ capitalize b.toList = t ++ capitalize a.toList := by
  rw [← String.toList_inj, toList_namespacedKey, toList_namespacedKey]
  exact List.append_eq_append_iff

end Step

namespace Group

open Sequencing Step Text

variable {g : Group} {mode : Sequencing} {settings : Settings} {overrides : Overrides}
  {a b key : String} {x : Step} {xs ys : List Step}

/-- No key of the list is a proper prefix of another one. -/
def PrefixFree (keys : List String) : Prop :=
  ∀ k ∈ keys, ∀ l ∈ keys, k.toList <+: l.toList → k = l

instance (keys : List String) : Decidable (PrefixFree keys) :=
  inferInstanceAs (Decidable (∀ k ∈ keys, ∀ l ∈ keys, k.toList <+: l.toList → k = l))

theorem PrefixFree.namespacedKey_ne {keys : List String} {k l : String} (hfree : PrefixFree keys)
    (hk : k ∈ keys) (hl : l ∈ keys) (hne : capitalize a.toList ≠ capitalize b.toList) :
    namespacedKey k a ≠ namespacedKey l b := by
  intro h
  rcases namespacedKey_eq_iff.mp h with ⟨t, hlt, hsuffix⟩ | ⟨t, hkt, hsuffix⟩
  · obtain rfl : k = l := hfree k hk l hl ⟨t, hlt.symm⟩
    obtain rfl : t = [] := List.self_eq_append_right.mp hlt
    exact hne hsuffix
  · obtain rfl : l = k := hfree l hl k hk ⟨t, hkt.symm⟩
    obtain rfl : t = [] := List.self_eq_append_right.mp hkt
    exact hne hsuffix.symm

/-! ## The keys of an invocation -/

theorem exists_of_invokeWith_ok (h : g.invokeWith mode settings overrides a = .ok xs) :
    ∃ t, xs = mode.sequence (keyed (g.actions.map (g.expandStep settings t a))) := by
  cases hr : Argument.resolve g.name g.arguments overrides with
  | error e =>
      rw [invokeWith_of_error hr] at h
      simp at h
  | ok t =>
      rw [invokeWith_of_ok hr] at h
      exact ⟨t, (Except.ok.inj h).symm⟩

theorem keys_keyed_actions (g : Group) : (keyed g.actions).keys = g.stepKeys.eraseDups :=
  keys_keyed g.actions

theorem lastDeclared?_of_mem_values {s : Step} (h : s ∈ (keyed g.actions).values) :
    g.lastDeclared? s.key = some s := by
  obtain ⟨e, he, rfl⟩ := List.mem_map.mp h
  have hget : (keyed g.actions).get? e.1 = some e.2 :=
    OrderedMap.findEntry_of_mem (keyed g.actions).nodup he
  rw [entries_keyed] at he
  obtain ⟨s, -, rfl⟩ := List.mem_map.mp he
  rwa [get?_keyed] at hget

theorem exists_image_of_invokeWith (h : g.invokeWith mode settings overrides a = .ok xs)
    (hx : x ∈ xs) : ∃ t s, g.lastDeclared? s.key = some s ∧ g.IsImage settings t a s x := by
  obtain ⟨t, rfl⟩ := exists_of_invokeWith_ok h
  have hvalues := (sequence_perm mode _).mem_iff.mp hx
  rw [(renames_expandStep g settings t a).values_keyed_map] at hvalues
  obtain ⟨s, hs, rfl⟩ := List.mem_map.mp hvalues
  exact ⟨t, s, lastDeclared?_of_mem_values hs, isImage_expandStep g settings t a s⟩

/-- The step keys of an invocation are the declared ones in its namespace. -/
theorem keys_perm_of_invokeWith (h : g.invokeWith mode settings overrides a = .ok xs) :
    (xs.map Step.key).Perm (g.stepKeys.eraseDups.map (namespacedKey · a)) := by
  obtain ⟨t, rfl⟩ := exists_of_invokeWith_ok h
  have hkeys : (keyed g.actions).values.map Step.key = g.stepKeys.eraseDups := by
    rw [← keys_keyed_actions, OrderedMap.keys, entries_keyed, List.map_map]
    rfl
  refine ((sequence_perm mode _).map Step.key).trans (List.Perm.of_eq ?_)
  rw [(renames_expandStep g settings t a).values_keyed_map, ← hkeys, List.map_map, List.map_map]
  rfl

theorem mem_keys_of_invokeWith (h : g.invokeWith mode settings overrides a = .ok xs) :
    key ∈ xs.map Step.key ↔ ∃ k ∈ g.stepKeys, namespacedKey k a = key := by
  simp [(keys_perm_of_invokeWith h).mem_iff]

/-- An invocation has no key twice and one key for each declared one. -/
def HasOwnKeys (g : Group) (xs : List Step) : Prop :=
  (xs.map Step.key).Nodup ∧ xs.length = g.stepKeys.eraseDups.length

theorem hasOwnKeys_of_invokeWith (h : g.invokeWith mode settings overrides a = .ok xs) :
    g.HasOwnKeys xs := by
  have hperm := keys_perm_of_invokeWith h
  constructor
  · apply hperm.nodup_iff.mpr
    exact (keys_keyed_actions g ▸ (keyed g.actions).keys_nodup).map (namespacedKey_injective a)
  · simpa using hperm.length_eq

/-- In the invocation `a` a link declared to a declared step leads to a step of `xs` and to none of
`ys`. -/
def LinksInto (g : Group) (a : String) (xs ys : List Step) : Prop :=
  ∀ x ∈ xs, ∃ s, g.lastDeclared? s.key = some s ∧ x.key = namespacedKey s.key a ∧
    ∀ target ∈ g.stepKeys, s.link = some target →
      ∃ link, x.link = some link ∧ link ∈ xs.map Step.key ∧ link ∉ ys.map Step.key

/-! ## Two invocations -/

theorem disjoint_of_invokeWith {mode' : Sequencing} {settings' : Settings} {overrides' : Overrides}
    (hfree : PrefixFree g.stepKeys) (hne : capitalize a.toList ≠ capitalize b.toList)
    (hx : g.invokeWith mode settings overrides a = .ok xs)
    (hy : g.invokeWith mode' settings' overrides' b = .ok ys) :
    (xs.map Step.key).Disjoint (ys.map Step.key) := by
  intro key hkx hky
  obtain ⟨k, hk, rfl⟩ := (mem_keys_of_invokeWith hx).mp hkx
  obtain ⟨l, hl, heq⟩ := (mem_keys_of_invokeWith hy).mp hky
  exact hfree.namespacedKey_ne hk hl hne heq.symm

theorem linksInto_of_disjoint (h : g.invokeWith mode settings overrides a = .ok xs)
    (hdisjoint : (xs.map Step.key).Disjoint (ys.map Step.key)) : g.LinksInto a xs ys := by
  intro x hx
  obtain ⟨t, s, hs, himage⟩ := exists_image_of_invokeWith h hx
  refine ⟨s, hs, himage.key, fun target htarget hlink => ?_⟩
  -- links are renamed in the same way as the keys
  have hmem : namespacedKey target a ∈ xs.map Step.key :=
    (mem_keys_of_invokeWith h).mpr ⟨target, htarget, rfl⟩
  refine ⟨namespacedKey target a, ?_, hmem, hdisjoint hmem⟩
  rw [himage.link, hlink, Option.map_some]

/-- Two invocations of a group do not meet: if no declared step key is a proper prefix of another
one and the capitalised invocation keys differ, they have no step key in common. Each has as many
different keys as the group declares, and a link to a declared step stays within its own
invocation. -/
theorem invoke_disjoint (g : Group) (hfree : PrefixFree g.stepKeys) {a b : String}
    (hne : capitalize a.toList ≠ capitalize b.toList) {overrides overrides' : Overrides}
    {xs ys : List Step} (hx : g.invoke overrides a = .ok xs)
    (hy : g.invoke overrides' b = .ok ys) :
    (xs.map Step.key).Disjoint (ys.map Step.key) ∧ g.HasOwnKeys xs ∧ g.HasOwnKeys ys ∧
      g.LinksInto a xs ys ∧ g.LinksInto b ys xs := by
  have hxy := disjoint_of_invokeWith hfree hne hx hy
  have hyx := disjoint_of_invokeWith hfree hne.symm hy hx
  exact ⟨hxy, hasOwnKeys_of_invokeWith hx, hasOwnKeys_of_invokeWith hy,
    linksInto_of_disjoint hx hxy, linksInto_of_disjoint hy hyx⟩

/-- One key is empty, and the first character of the other has two characters in uppercase. -/
theorem invoke_disjoint_login :
    PrefixFree login.stepKeys ∧ capitalize "ßx".toList ≠ capitalize "".toList ∧
    ∃ xs ys, login.invoke admin "ßx" = .ok xs ∧ login.invoke admin "" = .ok ys ∧
      (xs.map Step.key).Disjoint (ys.map Step.key) ∧ xs.length = 2 ∧
      (∃ x ∈ xs, x.key = "waitSSx") ∧ ∃ y ∈ ys, y.key = "wait" := by
  have hfree : PrefixFree login.stepKeys := by decide
  have hne : capitalize "ßx".toList ≠ capitalize "".toList := by decide
  have hresolve : Argument.resolve login.name login.arguments admin = .ok adminTable := rfl
  have hx : login.invoke admin "ßx" = _ := invokeWith_of_ok hresolve .linked "ßx"
  have hy : login.invoke admin "" = _ := invokeWith_of_ok hresolve .linked ""
  obtain ⟨hdisjoint, ⟨-, hlength⟩, -⟩ := invoke_disjoint login hfree hne hx hy
  have hcount : login.stepKeys.eraseDups.length = 2 := by decide
  have hwait : "wait" ∈ login.stepKeys := by decide
  refine ⟨hfree, hne, _, _, hx, hy, hdisjoint, hlength.trans hcount, ?_, ?_⟩
  · exact List.mem_map.mp ((mem_keys_of_invokeWith hx).mpr ⟨"wait", hwait, by decide⟩)
  · exact List.mem_map.mp ((mem_keys_of_invokeWith hy).mpr ⟨"wait", hwait, by decide⟩)

end Group

end StepTemplate
