import StepTemplate.Argument
import StepTemplate.Proofs.OrderedMap

namespace StepTemplate

/-!
# The arguments of an invocation

A declaration is missing if neither an override nor a default gives it a value, and a single
missing one makes an invocation fail. Otherwise the declarations enter the table one after the
other: where a name comes again, its argument keeps the place that it has and takes its value and
its kind from the later declaration.
-/

namespace Argument

variable {d : Declared} {declared : List Declared} {overrides overrides' : OrderedMap String String}
  {a b : Resolved} {as : List Resolved} {t : Table} {name : String}

/-! ## The table as a list -/

namespace Table

theorem mem_toList_iff : b ∈ t.toList ↔ t.get? b.name = some ⟨b.value, b.kind⟩ := by
  rw [OrderedMap.get?_eq_some_iff, toList, List.mem_map]
  constructor
  · rintro ⟨e, he, rfl⟩
    exact he
  · intro h
    exact ⟨_, h, rfl⟩

theorem map_name_toList (t : Table) : t.toList.map Resolved.name = t.keys := by
  rw [toList, List.map_map]
  rfl

theorem ofList_concat (as : List Resolved) (a : Resolved) :
    ofList (as ++ [a]) = (ofList as).insert a := by
  simp [ofList]

theorem mem_toList_insert : b ∈ (t.insert a).toList ↔ b = a ∨ b ∈ t.toList ∧ b.name ≠ a.name := by
  rw [mem_toList_iff, mem_toList_iff, insert, OrderedMap.get?_insert]
  by_cases h : a.name = b.name
  · rw [if_pos h]
    cases a
    cases b
    simp_all [eq_comm]
  · have hne : b ≠ a := by
      rintro rfl
      exact h rfl
    simp [h, hne, Ne.symm h]

end Table

/-! ## What a declaration gives -/

/-- Neither an override nor a default gives a value. -/
def Declared.IsMissing (overrides : OrderedMap String String) (d : Declared) : Prop :=
  overrides.get? d.name = none ∧ d.value = none

instance (overrides : OrderedMap String String) (d : Declared) :
    Decidable (d.IsMissing overrides) :=
  inferInstanceAs (Decidable (_ ∧ _))

/-- The argument has the name and the kind of the declaration; its value is the override of the
name, or the default if there is no override. -/
structure Declared.Gives (overrides : OrderedMap String String) (d : Declared) (a : Resolved) :
    Prop where
  name : a.name = d.name
  kind : a.kind = d.kind
  value : overrides.get? d.name = some a.value ∨
    overrides.get? d.name = none ∧ d.value = some a.value

theorem Declared.supplied?_eq_none_iff : d.supplied? overrides = none ↔ d.IsMissing overrides := by
  simp [supplied?, IsMissing]

theorem Declared.supplied?_eq_some_iff : d.supplied? overrides = some a ↔ d.Gives overrides a := by
  rw [supplied?, Option.map_eq_some_iff]
  constructor
  · rintro ⟨v, hv, rfl⟩
    exact ⟨rfl, rfl, Option.or_eq_some_iff.mp hv⟩
  · rintro ⟨hname, hkind, hvalue⟩
    cases a
    cases hname
    cases hkind
    exact ⟨_, Option.or_eq_some_iff.mpr hvalue, rfl⟩

/-- The declaration that comes last with a name. -/
def lastDeclared? (declared : List Declared) (name : String) : Option Declared :=
  declared.findRev? (·.name == name)

theorem lastDeclared?_concat (declared : List Declared) (d : Declared) (name : String) :
    lastDeclared? (declared ++ [d]) name =
      if d.name = name then some d else lastDeclared? declared name := by
  by_cases h : d.name = name <;>
    simp [lastDeclared?, List.findRev?_eq_find?_reverse, h]

/-! ## The table of all declarations -/

/-- The table has one argument for each declared name, in the order in which the names come first.
The declaration that comes last with the name gives the argument. -/
structure Table.Resolves (overrides : OrderedMap String String) (declared : List Declared)
    (t : Table) : Prop where
  names : t.toList.map Resolved.name = (declared.map Declared.name).eraseDups
  arguments : ∀ a ∈ t.toList, ∃ d, lastDeclared? declared a.name = some d ∧ d.Gives overrides a

theorem Table.resolves_empty : Table.Resolves overrides [] OrderedMap.empty :=
  ⟨rfl, fun _ ha => absurd ha List.not_mem_nil⟩

/-- One declaration more. -/
theorem Table.Resolves.insert (h : t.Resolves overrides declared) (ha : d.Gives overrides a) :
    (t.insert a).Resolves overrides (declared ++ [d]) := by
  have hnames := h.names
  rw [map_name_toList] at hnames
  refine ⟨?_, fun b hb => ?_⟩
  · rw [map_name_toList, Table.insert, OrderedMap.keys_insert, hnames, List.map_append,
      List.map_singleton, eraseDups_concat, ha.name]
    simp only [List.mem_eraseDups]
  · rw [lastDeclared?_concat]
    rcases mem_toList_insert.mp hb with rfl | ⟨hb, hne⟩
    · exact ⟨d, if_pos ha.name.symm, ha⟩
    · rw [if_neg (ha.name ▸ hne.symm)]
      exact h.arguments b hb

theorem Table.resolves_ofList (h : ∀ d ∈ declared, ¬ d.IsMissing overrides) :
    (Table.ofList (declared.filterMap (Declared.supplied? overrides))).Resolves overrides
      declared := by
  induction declared using List.reverseRecOn with
  | nil => exact resolves_empty
  | append_singleton declared d ih =>
      have hd := h d (List.mem_append_right declared (List.mem_singleton_self d))
      rw [← Declared.supplied?_eq_none_iff, ← ne_eq, Option.ne_none_iff_exists'] at hd
      obtain ⟨a, ha⟩ := hd
      rw [List.filterMap_append, List.filterMap_cons_some ha, List.filterMap_nil, ofList_concat]
      exact (ih fun x hx => h x (List.mem_append_left _ hx)).insert
        (Declared.supplied?_eq_some_iff.mp ha)

theorem Table.Resolves.get?_eq_none_iff (h : t.Resolves overrides declared) :
    t.get? name = none ↔ name ∉ declared.map Declared.name := by
  rw [← List.mem_eraseDups, ← h.names, List.mem_map]
  constructor
  · rintro hnone ⟨a, ha, rfl⟩
    rw [mem_toList_iff, hnone] at ha
    cases ha
  · intro hnot
    rw [Option.eq_none_iff_forall_ne_some]
    intro b hb
    exact hnot ⟨⟨name, b.value, b.kind⟩, mem_toList_iff.mpr hb, rfl⟩

/-! ## The outcome -/

theorem filter_supplied?_isNone (declared : List Declared) (overrides : OrderedMap String String) :
    (declared.filter fun d => (d.supplied? overrides).isNone) =
      declared.filter fun d => d.IsMissing overrides := by
  refine List.filter_congr fun d _ => ?_
  rw [Bool.eq_iff_iff, Option.isNone_iff_eq_none, decide_eq_true_iff]
  exact Declared.supplied?_eq_none_iff

theorem resolve_of_forall_not_isMissing (group : String)
    (h : ∀ d ∈ declared, ¬ d.IsMissing overrides) :
    resolve group declared overrides =
      .ok (Table.ofList (declared.filterMap (Declared.supplied? overrides))) := by
  have hnil : declared.filter (fun d => d.IsMissing overrides) = [] :=
    List.filter_eq_nil_iff.mpr fun d hd => by simpa using h d hd
  rw [resolve, filter_supplied?_isNone, hnil]

theorem resolve_of_isMissing (group : String) (h : ∃ d ∈ declared, d.IsMissing overrides) :
    resolve group declared overrides =
      .error ⟨group, (declared.filter fun d => d.IsMissing overrides).map Declared.name⟩ := by
  obtain ⟨d, hd, hmissing⟩ := h
  have hmem : d ∈ declared.filter fun d => d.IsMissing overrides :=
    List.mem_filter.mpr ⟨hd, decide_eq_true hmissing⟩
  rw [resolve, filter_supplied?_isNone]
  obtain ⟨x, xs, hx⟩ := List.exists_cons_of_ne_nil (List.ne_nil_of_mem hmem)
  rw [hx]

theorem resolve_congr (group : String)
    (h : ∀ d ∈ declared, overrides.get? d.name = overrides'.get? d.name) :
    resolve group declared overrides = resolve group declared overrides' := by
  have hsupplied : ∀ d ∈ declared, d.supplied? overrides = d.supplied? overrides' := by
    intro d hd
    rw [Declared.supplied?, Declared.supplied?, h d hd]
  have hmissing : (declared.filter fun d => (d.supplied? overrides).isNone) =
      declared.filter fun d => (d.supplied? overrides').isNone :=
    List.filter_congr fun d hd => by rw [hsupplied d hd]
  rw [resolve, resolve, hmissing, List.filterMap_congr hsupplied]

/-- An invocation fails just when a declaration is missing, and the error has the names of all
missing declarations in their order, a name as often as it is missing. Otherwise it yields a table
with one argument for each declared name, at the place of the first declaration, with the override
of the name or else the default of the last declaration, and the kind of that one; looking up a
name finds just this argument. Overrides of names that are not declared make no difference. -/
theorem resolve_exact (group : String) (declared : List Declared)
    (overrides : OrderedMap String String) :
    (∀ e, resolve group declared overrides = .error e ↔
      (∃ d ∈ declared, d.IsMissing overrides) ∧
        e = ⟨group, (declared.filter fun d => d.IsMissing overrides).map Declared.name⟩) ∧
    ((∀ d ∈ declared, ¬ d.IsMissing overrides) →
      ∃ t, resolve group declared overrides = .ok t ∧ t.Resolves overrides declared ∧
        (∀ name value kind, t.get? name = some ⟨value, kind⟩ ↔ ⟨name, value, kind⟩ ∈ t.toList) ∧
        ∀ name, t.get? name = none ↔ name ∉ declared.map Declared.name) ∧
    ∀ overrides' : OrderedMap String String,
      (∀ d ∈ declared, overrides.get? d.name = overrides'.get? d.name) →
        resolve group declared overrides = resolve group declared overrides' := by
  refine ⟨fun e => ?_, fun h => ?_, fun overrides' h => resolve_congr group h⟩
  · by_cases h : ∃ d ∈ declared, d.IsMissing overrides
    · rw [resolve_of_isMissing group h, Except.error.injEq]
      simp [h, eq_comm]
    · have hall : ∀ d ∈ declared, ¬ d.IsMissing overrides := by simpa using h
      rw [resolve_of_forall_not_isMissing group hall]
      simp [h]
  · have hresolves := Table.resolves_ofList h
    refine ⟨_, resolve_of_forall_not_isMissing group h, hresolves, fun name value kind => ?_,
      fun _ => hresolves.get?_eq_none_iff⟩
    exact (Table.mem_toList_iff (b := ⟨name, value, kind⟩)).symm

/-! ## Names declared twice -/

/-- `row` loses its default in a later declaration, `col` changes it, and `url` never has one. -/
def cellDeclared : List Declared :=
  [⟨"row", some "1", .string⟩, ⟨"url", none, .entity⟩, ⟨"row", none, .persisted⟩,
    ⟨"col", some "2", .string⟩, ⟨"url", none, .string⟩, ⟨"col", some "3", .entity⟩]

def cellOverrides : OrderedMap String String :=
  OrderedMap.ofList [("url", "home"), ("page", "4"), ("row", "$made$")]

theorem resolve_exact_cell :
    resolve "Cell" cellDeclared OrderedMap.empty = .error ⟨"Cell", ["url", "row", "url"]⟩ ∧
    (∀ d ∈ cellDeclared, ¬ d.IsMissing cellOverrides) ∧
    (∀ d ∈ cellDeclared, cellOverrides.get? d.name =
      (cellOverrides.insert "page" "5").get? d.name) ∧
    ∃ t, resolve "Cell" cellDeclared cellOverrides = .ok t ∧
      resolve "Cell" cellDeclared (cellOverrides.insert "page" "5") = .ok t ∧
      t.toList.map Resolved.name = ["row", "url", "col"] ∧
      (∀ a ∈ t.toList, ∃ d, lastDeclared? cellDeclared a.name = some d ∧
        d.Gives cellOverrides a) ∧
      lastDeclared? cellDeclared "col" = some ⟨"col", some "3", .entity⟩ ∧
      t.get? "page" = none := by
  have hpresent : ∀ d ∈ cellDeclared, ¬ d.IsMissing cellOverrides := by decide
  have hagree : ∀ d ∈ cellDeclared, cellOverrides.get? d.name =
      (cellOverrides.insert "page" "5").get? d.name := by decide
  obtain ⟨hmissing, -, -⟩ := resolve_exact "Cell" cellDeclared OrderedMap.empty
  obtain ⟨-, hok, hcongr⟩ := resolve_exact "Cell" cellDeclared cellOverrides
  obtain ⟨t, ht, hresolves, -, hnone⟩ := hok hpresent
  refine ⟨(hmissing _).mpr (by decide), hpresent, hagree, t, ht, (hcongr _ hagree).symm.trans ht,
    ?_, hresolves.arguments, by decide, (hnone "page").mpr (by decide)⟩
  rw [hresolves.names]
  decide

end Argument

end StepTemplate
