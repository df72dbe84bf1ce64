import Mathlib.Data.List.Nodup
import Mathlib.Data.List.Perm.Basic
import Mathlib.Logic.Relation
import StepTemplate.Proofs.Json.Acceptance
import StepTemplate.Proofs.Json.Records

namespace StepTemplate

/-!
# Fields in any order

The fields of a record are places of its draft that do not depend on each other. So the members of
an object may stand in any order and between members that are no fields of the record.
-/

namespace Json

open Document Argument

variable {α δ : Type} {r : Record Node Result δ α} {f : Field Node Result δ} {d d' : δ}
  {keys : List (String × String)} {needed : List String} {ms ms' front back : List (String × Node)}
  {m : String × Node} {text : String}

/-! ## Objects for a record -/

/-- The fields that the members are for. The table `keys` has the name of the field for each key. -/
def fieldNames (keys : List (String × String)) (ms : List (String × Node)) : List String :=
  ms.filterMap fun m => keys.lookup m.1

/-- There is a member for the field, and its value is read with the given result. -/
def Offers (keys : List (String × String)) (ms : List (String × Node)) (f : Field Node Result δ)
    (result : Result f.Slot) : Prop :=
  ∃ m ∈ ms, keys.lookup m.1 = some f.name ∧ f.read m.2 = result

/-- No field comes twice, the needed ones are there, and the values of all of them can be read. -/
structure Fitting (r : Record Node Result δ α) (keys : List (String × String))
    (needed : List String) (ms : List (String × Node)) : Prop where
  distinct : (fieldNames keys ms).Nodup
  complete : ∀ name ∈ needed, name ∈ fieldNames keys ms
  readable : ∀ f ∈ r.fields, ∀ result, Offers keys ms f result → ∃ x, result = .ok x

/-- The draft holds what the members say of the fields, and nothing else. -/
def Collects (r : Record Node Result δ α) (keys : List (String × String))
    (ms : List (String × Node)) (d : δ) : Prop :=
  ∀ f ∈ r.fields, ∀ x, f.get d = some x ↔ Offers keys ms f (.ok x)

/-- One change to the members of an object that leaves its record as it is. A value may give way to
any value that is read alike, as a variation of an object inside it is. -/
inductive Varies (r : Record Node Result δ α) (keys : List (String × String)) :
    List (String × Node) → List (String × Node) → Prop where
  | reorder (ms ms' : List (String × Node)) (h : ms.Perm ms') : Varies r keys ms ms'
  | insert (front back : List (String × Node)) (m : String × Node)
      (hm : keys.lookup m.1 = none) : Varies r keys (front ++ back) (front ++ m :: back)
  | rename (front back : List (String × Node)) (key key' name : String) (value : Node)
      (hkey : keys.lookup key = some name) (hkey' : keys.lookup key' = some name) :
      Varies r keys (front ++ (key, value) :: back) (front ++ (key', value) :: back)
  | reread (front back : List (String × Node)) (key : String) (value value' : Node)
      (h : ∀ f ∈ r.fields, keys.lookup key = some f.name → f.read value = f.read value') :
      Varies r keys (front ++ (key, value) :: back) (front ++ (key, value') :: back)

/-! ## What a change keeps -/

theorem fieldNames_append (front back : List (String × Node)) :
    fieldNames keys (front ++ back) = fieldNames keys front ++ fieldNames keys back :=
  List.filterMap_append

theorem offers_middle {result : Result f.Slot} :
    Offers keys (front ++ m :: back) f result ↔
      keys.lookup m.1 = some f.name ∧ f.read m.2 = result ∨
        Offers keys (front ++ back) f result := by
  simp only [Offers, List.perm_middle.mem_iff, List.mem_cons, exists_eq_or_imp]

theorem Varies.fieldNames_perm (h : Varies r keys ms ms') :
    (fieldNames keys ms).Perm (fieldNames keys ms') := by
  cases h with
  | reorder ms ms' h => exact h.filterMap _
  | insert front back m hm => simp [fieldNames, hm]
  | rename front back key key' name value hkey hkey' => simp [fieldNames, hkey, hkey']
  | reread front back key value value' h => simp [fieldNames, List.filterMap_cons]

theorem Varies.offers_iff (h : Varies r keys ms ms') (hf : f ∈ r.fields) (result : Result f.Slot) :
    Offers keys ms f result ↔ Offers keys ms' f result := by
  cases h with
  | reorder ms ms' h => simp only [Offers, h.mem_iff]
  | insert front back m hm => simp [offers_middle, hm]
  | rename front back key key' name value hkey hkey' => simp [offers_middle, hkey, hkey']
  | reread front back key value value' h =>
      rw [offers_middle, offers_middle]
      refine or_congr_left (and_congr_right fun hkey => ?_)
      rw [h f hf hkey]

theorem Varies.fitting (h : Varies r keys ms ms') (hfits : Fitting r keys needed ms) :
    Fitting r keys needed ms' where
  distinct := h.fieldNames_perm.nodup_iff.mp hfits.distinct
  complete name hname := h.fieldNames_perm.mem_iff.mp (hfits.complete name hname)
  readable f hf result hresult := hfits.readable f hf result ((h.offers_iff hf result).mpr hresult)

theorem Varies.collects_iff (h : Varies r keys ms ms') (d : δ) :
    Collects r keys ms d ↔ Collects r keys ms' d := by
  refine forall₂_congr fun f hf => forall_congr' fun x => ?_
  rw [h.offers_iff hf]

theorem fitting_of_varied (h : Relation.ReflTransGen (Varies r keys) ms ms')
    (hfits : Fitting r keys needed ms) : Fitting r keys needed ms' := by
  induction h with
  | refl => exact hfits
  | tail _ hlast ih => exact hlast.fitting ih

theorem collects_iff_of_varied (h : Relation.ReflTransGen (Varies r keys) ms ms') (d : δ) :
    Collects r keys ms d ↔ Collects r keys ms' d := by
  induction h with
  | refl => exact Iff.rfl
  | tail _ hlast ih => exact ih.trans (hlast.collects_iff d)

/-! ## Reading an object -/

/-- The fields of a record are independent places of its draft, and a draft has no others. The
record is made of any draft that has the fields `needed`. -/
structure IsLawful (r : Record Node Result δ α) (keys : List (String × String))
    (needed : List String) : Prop where
  keys_eq : keys = r.fields.flatMap fun f => (f.name :: f.aliases).map (·, f.name)
  name_inj : ∀ f ∈ r.fields, ∀ g ∈ r.fields, f.name = g.name → f = g
  get_start : ∀ f ∈ r.fields, f.get r.start = none
  get_set : ∀ f ∈ r.fields, ∀ d x, f.get (f.set d x) = some x
  get_set_apart : ∀ f ∈ r.fields, ∀ g ∈ r.fields, f.name ≠ g.name →
    ∀ d x, g.get (f.set d x) = g.get d
  ext : ∀ d d', (∀ f ∈ r.fields, f.get d = f.get d') → d = d'
  finish : ∀ d, (∀ f ∈ r.fields, f.name ∈ needed → ∃ x, f.get d = some x) →
    ∃ a, r.finish d = .ok a

theorem lookup_map_name (l : List String) (name key : String) :
    (l.map (·, name)).lookup key = if key ∈ l then some name else none := by
  induction l with
  | nil => rfl
  | cons k l ih =>
      rw [List.map_cons, List.lookup_cons, ih]
      by_cases hk : key = k
      · simp [hk]
      · rw [beq_false_of_ne hk]
        simp [hk]

theorem lookup_flatMap_name (fields : List (Field Node Result δ)) (key : String) :
    (fields.flatMap fun f => (f.name :: f.aliases).map (·, f.name)).lookup key =
      (fields.find? (·.answersTo key)).map (·.name) := by
  induction fields with
  | nil => rfl
  | cons f fields ih =>
      have hanswers : key ∈ f.name :: f.aliases ↔ f.answersTo key = true := by
        simp [Field.answersTo, @eq_comm _ key f.name]
      rw [List.flatMap_cons, List.lookup_append, lookup_map_name, ih, List.find?_cons]
      cases hkey : f.answersTo key with
      | true =>
          rw [if_pos (hanswers.mpr hkey)]
          rfl
      | false =>
          rw [if_neg (hanswers.not.mpr (by simp [hkey]))]
          rfl

theorem IsLawful.lookup_eq (hr : IsLawful r keys needed) (key : String) :
    keys.lookup key = (r.field? key).map (·.name) := by
  rw [hr.keys_eq, lookup_flatMap_name]
  rfl

theorem mem_fieldNames_iff {name : String} :
    name ∈ fieldNames keys ms ↔ ∃ m ∈ ms, keys.lookup m.1 = some name :=
  List.mem_filterMap

theorem Collects.get_eq_none (h : Collects r keys ms d) (hf : f ∈ r.fields)
    (hnew : f.name ∉ fieldNames keys ms) : f.get d = none := by
  rw [Option.eq_none_iff_forall_ne_some]
  intro x hx
  obtain ⟨m, hm, hkey, -⟩ := (h f hf x).mp hx
  exact hnew (mem_fieldNames_iff.mpr ⟨m, hm, hkey⟩)

theorem Collects.set (hr : IsLawful r keys needed) (h : Collects r keys ms d) (hf : f ∈ r.fields)
    (hkey : keys.lookup m.1 = some f.name) (hnew : f.name ∉ fieldNames keys ms) {x : f.Slot}
    (hx : f.read m.2 = .ok x) : Collects r keys (ms ++ [m]) (f.set d x) := by
  intro g hg y
  have hmiddle : Offers keys (ms ++ [m]) g (.ok y) ↔
      keys.lookup m.1 = some g.name ∧ g.read m.2 = .ok y ∨ Offers keys ms g (.ok y) := by
    have h := @offers_middle _ g keys ms [] m (.ok y)
    rwa [List.append_nil] at h
  rw [hmiddle, hkey]
  by_cases hname : f.name = g.name
  · obtain rfl := hr.name_inj f hf g hg hname
    have hnone : ¬ Offers keys ms f (.ok y) := by
      rw [← h f hf y, h.get_eq_none hf hnew]
      exact Option.some_ne_none y ∘ Eq.symm
    rw [hr.get_set f hf, hx]
    simp [hnone]
  · rw [hr.get_set_apart f hf g hg hname, h g hg y]
    simp [hname]

/-- The next member takes its place in the draft, or none. -/
theorem Collects.readMember (hr : IsLawful r keys needed) (h : Collects r keys ms d)
    (hdistinct : (fieldNames keys (ms ++ [m])).Nodup)
    (hreadable : ∀ f ∈ r.fields, ∀ result, Offers keys (ms ++ [m]) f result → ∃ x, result = .ok x)
    (hwhole : m.2.isWhole = true) :
    ∃ d', Json.readMember r d m = .ok d' ∧ Collects r keys (ms ++ [m]) d' := by
  have hlookup := hr.lookup_eq m.1
  cases hfield : r.field? m.1 with
  | none =>
      rw [hfield] at hlookup
      refine ⟨d, ?_, ?_⟩
      · simp only [Json.readMember, hfield]
        exact if_pos hwhole
      · have hinsert := Varies.insert (r := r) ms [] m hlookup
        rw [List.append_nil] at hinsert
        exact (hinsert.collects_iff d).mp h
  | some f =>
      rw [hfield, Option.map_some] at hlookup
      have hf : f ∈ r.fields := List.mem_of_find?_eq_some hfield
      obtain ⟨x, hx⟩ := hreadable f hf (f.read m.2) ⟨m, by simp, hlookup, rfl⟩
      -- the reader refuses a field whose place is taken
      have hnew : f.name ∉ fieldNames keys ms := by
        rw [fieldNames_append] at hdistinct
        have hlast : f.name ∈ fieldNames keys [m] := by simp [fieldNames, hlookup]
        exact fun hmem => List.disjoint_of_nodup_append hdistinct hmem hlast
      exact ⟨f.set d x, readMember_of_new hfield (h.get_eq_none hf hnew) hx,
        h.set hr hf hlookup hnew hx⟩

theorem exists_fills (hr : IsLawful r keys needed) (hdistinct : (fieldNames keys ms).Nodup)
    (hreadable : ∀ f ∈ r.fields, ∀ result, Offers keys ms f result → ∃ x, result = .ok x)
    (hwhole : ∀ m ∈ ms, m.2.isWhole = true) :
    ∃ d, Fills r ms r.start d ∧ Collects r keys ms d := by
  induction ms using List.reverseRecOn with
  | nil =>
      refine ⟨r.start, fills_nil r r.start, fun f hf x => ?_⟩
      rw [hr.get_start f hf]
      simp [Offers]
  | append_singleton ms m ih =>
      -- the last member meets the draft that collects all members in front of it
      have hnames := hdistinct
      rw [fieldNames_append] at hnames
      obtain ⟨d, hfills, hd⟩ := ih hnames.of_append_left
        (fun f hf result ⟨m', hm', h⟩ =>
          hreadable f hf result ⟨m', List.mem_append_left [m] hm', h⟩)
        (fun m' hm' => hwhole m' (List.mem_append_left [m] hm'))
      obtain ⟨d', hread, hd'⟩ := hd.readMember hr hdistinct hreadable (hwhole m (by simp))
      refine ⟨d', hfills.append ?_, hd'⟩
      rw [Fills, List.foldlM_cons, hread]
      rfl

theorem Collects.exists_finish (hr : IsLawful r keys needed) (h : Collects r keys ms d)
    (hfits : Fitting r keys needed ms) : ∃ a, r.finish d = .ok a := by
  refine hr.finish d fun f hf hname => ?_
  obtain ⟨m, hm, hkey⟩ := mem_fieldNames_iff.mp (hfits.complete f.name hname)
  obtain ⟨x, hx⟩ := hfits.readable f hf (f.read m.2) ⟨m, hm, hkey, rfl⟩
  exact ⟨x, (h f hf x).mpr ⟨m, hm, hkey, hx⟩⟩

theorem Collects.eq (hr : IsLawful r keys needed) (h : Collects r keys ms d)
    (h' : Collects r keys ms d') : d = d' := by
  refine hr.ext d d' fun f hf => Option.ext fun x => ?_
  rw [h f hf, h' f hf]

/-- A fitting object is read as the record of its fields. -/
theorem readRecord_of_fitting (hr : IsLawful r keys needed) (hfits : Fitting r keys needed ms)
    (hwhole : ∀ m ∈ ms, m.2.isWhole = true) :
    ∃ d a, Collects r keys ms d ∧ r.finish d = .ok a ∧
      Node.readRecord r (.object (Members.ofList ms)) = .ok a := by
  obtain ⟨d, hfills, hd⟩ := exists_fills hr hfits.distinct hfits.readable hwhole
  obtain ⟨a, ha⟩ := hd.exists_finish hr hfits
  exact ⟨d, a, hd, ha, readRecord_of_fills hfills ha⟩

theorem readRecord_of_varied (hr : IsLawful r keys needed) (hfits : Fitting r keys needed ms)
    (hvaried : Relation.ReflTransGen (Varies r keys) ms ms')
    (hwhole : ∀ m ∈ ms, m.2.isWhole = true) (hwhole' : ∀ m ∈ ms', m.2.isWhole = true) :
    Node.readRecord r (.object (Members.ofList ms')) =
      Node.readRecord r (.object (Members.ofList ms)) := by
  obtain ⟨d, a, hd, ha, hread⟩ := readRecord_of_fitting hr hfits hwhole
  obtain ⟨d', a', hd', ha', hread'⟩ :=
    readRecord_of_fitting hr (fitting_of_varied hvaried hfits) hwhole'
  obtain rfl : d = d' := hd.eq hr ((collects_iff_of_varied hvaried d').mpr hd')
  obtain rfl : a' = a := Except.ok.inj (ha'.symm.trans ha)
  rw [hread, hread']

/-! ## Documents -/

theorem isWhole_of_isFormed (h : (Members.ofList ms).isFormed = true) :
    ∀ m ∈ ms, m.2.isWhole = true := by
  induction ms with
  | nil => simp
  | cons m ms ih =>
      obtain ⟨hm, hms⟩ := Bool.and_eq_true_iff.mp h
      exact List.forall_mem_cons.mpr ⟨m.2.isWhole_of_isFormed hm, ih hms⟩

/-- Every document with a fitting object is read as the record of its fields, and every document
with a variation of that object is read as the same record. -/
def ReadsFields (read : String → Result α) (r : Record Node Result δ α)
    (keys : List (String × String)) (needed : List String) : Prop :=
  ∀ ms text, IsDocument (.object (Members.ofList ms)) text → Fitting r keys needed ms →
    ∃ d a, Collects r keys ms d ∧ r.finish d = .ok a ∧ read text = .ok a ∧
      ∀ ms' text', Relation.ReflTransGen (Varies r keys) ms ms' →
        IsDocument (.object (Members.ofList ms')) text' → read text' = .ok a

theorem readsFields (hr : IsLawful r keys needed) :
    ReadsFields (readDocument (Node.readRecord r)) r keys needed := by
  intro ms text htext hfits
  have hwhole := isWhole_of_isFormed htext.isFormed
  obtain ⟨d, a, hd, ha, hread⟩ := readRecord_of_fitting hr hfits hwhole
  refine ⟨d, a, hd, ha, ?_, fun ms' text' hvaried htext' => ?_⟩
  · rw [readDocument_of_isDocument htext, hread]
  · have hwhole' := isWhole_of_isFormed htext'.isFormed
    rw [readDocument_of_isDocument htext', readRecord_of_varied hr hfits hvaried hwhole hwhole',
      hread]

/-! ## The records of a definition -/

def declaredKeys : List (String × String) :=
  [("name", "name"), ("value", "value"), ("defaultValue", "value"), ("type", "type")]

theorem isLawful_declared : IsLawful (declared format) declaredKeys ["name"] where
  keys_eq := rfl
  name_inj := by simp [declared]
  get_start := by simp [declared]
  get_set := by simp [declared]
  get_set_apart := by simp [declared]
  ext := by
    rintro ⟨name, value, kind⟩ ⟨name', value', kind'⟩ h
    simpa [declared] using h
  finish := by
    rintro ⟨name, value, kind⟩ h
    obtain ⟨x, rfl⟩ : ∃ x, name = some x := by simpa [declared] using h
    exact ⟨_, rfl⟩

def resolvedKeys : List (String × String) :=
  [("name", "name"), ("value", "value"), ("type", "type")]

theorem isLawful_resolved : IsLawful (resolved format) resolvedKeys ["name", "value", "type"] where
  keys_eq := rfl
  name_inj := by simp [resolved]
  get_start := by simp [resolved]
  get_set := by simp [resolved]
  get_set_apart := by simp [resolved]
  ext := by
    rintro ⟨name, value, kind⟩ ⟨name', value', kind'⟩ h
    simpa [resolved] using h
  finish := by
    rintro ⟨name, value, kind⟩ h
    obtain ⟨⟨x, rfl⟩, ⟨y, rfl⟩, ⟨z, rfl⟩⟩ :
        (∃ x, name = some x) ∧ (∃ y, value = some y) ∧ ∃ z, kind = some z := by
      simpa [resolved] using h
    exact ⟨_, rfl⟩

def stepKeys : List (String × String) :=
  [("stepKey", "stepKey"), ("type", "type"), ("attributes", "attributes"),
    ("linkedAction", "linkedAction"), ("orderOffset", "orderOffset"),
    ("actionOrigin", "actionOrigin")]

theorem isLawful_step : IsLawful (step format) stepKeys ["stepKey", "type"] where
  keys_eq := rfl
  name_inj := by simp [step]
  get_start := by simp [step]
  get_set := by simp [step]
  get_set_apart := by simp [step]
  ext := by
    rintro ⟨key, action, attributes, link, offset, origin⟩
      ⟨key', action', attributes', link', offset', origin'⟩ h
    simpa [step] using h
  finish := by
    rintro ⟨key, action, attributes, link, offset, origin⟩ h
    obtain ⟨⟨x, rfl⟩, ⟨y, rfl⟩⟩ : (∃ x, key = some x) ∧ ∃ y, action = some y := by
      simpa [step] using h
    exact ⟨_, rfl⟩

def groupKeys : List (String × String) :=
  [("name", "name"), ("arguments", "arguments"), ("actions", "actions")]

theorem isLawful_group : IsLawful (group format) groupKeys ["name"] where
  keys_eq := rfl
  name_inj := by simp [group]
  get_start := by simp [group]
  get_set := by simp [group]
  get_set_apart := by simp [group]
  ext := by
    rintro ⟨name, arguments, actions⟩ ⟨name', arguments', actions'⟩ h
    simpa [group] using h
  finish := by
    rintro ⟨name, arguments, actions⟩ h
    obtain ⟨x, rfl⟩ : ∃ x, name = some x := by simpa [group] using h
    exact ⟨_, rfl⟩

def settingsKeys : List (String × String) :=
  [("variable_attributes", "variable_attributes")]

theorem isLawful_settings : IsLawful (settings format) settingsKeys [] where
  keys_eq := rfl
  name_inj := by simp [settings]
  get_start := by simp [settings]
  get_set := by simp [settings]
  get_set_apart := by simp [settings]
  ext := by
    rintro ⟨attributes⟩ ⟨attributes'⟩ h
    simpa [settings] using h
  finish d _ := ⟨_, rfl⟩

/-- The records of a definition are read from any document with an object that has their fields,
whatever the order of the members, the members that are no fields, the blanks and the spelling. -/
theorem read_varied :
    ReadsFields readGroup (group format) groupKeys ["name"] ∧
    ReadsFields readDeclared (declared format) declaredKeys ["name"] ∧
    ReadsFields readResolved (resolved format) resolvedKeys ["name", "value", "type"] ∧
    ReadsFields readStep (step format) stepKeys ["stepKey", "type"] ∧
    ReadsFields readSettings (settings format) settingsKeys [] :=
  ⟨readsFields isLawful_group, readsFields isLawful_declared, readsFields isLawful_resolved,
    readsFields isLawful_step, readsFields isLawful_settings⟩

/-- An argument in the order of its declaration. -/
def desk : List (String × Node) :=
  [("name", ofText "desk"), ("value", ofText "x")]

/-- The same argument the other way round, with the other name of its value. The note between the
fields has a number beyond all bounds and a text that keeps half of a surrogate pair. -/
def notedDesk : List (String × Node) :=
  [("defaultValue", ofText "x"),
    ("note", .array (Items.ofList [.number ⟨false, 1, [], some 999⟩,
      .object (Members.ofList [("a", .text none)])])),
    ("name", ofText "desk")]

def deskText : String :=
  "\x7b\"name\":\"desk\",\"value\":\"x\"\x7d"

def notedDeskText : String :=
  "\x7b \"defaultValue\" :\"\\u0078\",\n\"note\":[1E+999, \x7b\"a\":\"\\ud800\"\x7d],"
    ++ "\"n\\u0061me\":\"desk\"\x7d\n"

theorem isDocument_deskText : IsDocument (.object (Members.ofList desk)) deskText :=
  isDocument_iff.mpr ⟨by decide +kernel, rfl⟩

theorem isDocument_notedDeskText :
    IsDocument (.object (Members.ofList notedDesk)) notedDeskText :=
  isDocument_iff.mpr ⟨by decide +kernel, rfl⟩

theorem fitting_desk : Fitting (declared format) declaredKeys ["name"] desk where
  distinct := by decide
  complete := by decide
  readable := by
    intro f hf result ⟨m, hm, hkey, hread⟩
    simp only [declared, List.mem_cons, List.not_mem_nil, or_false] at hf
    simp only [desk, List.mem_cons, List.not_mem_nil, or_false] at hm
    rcases hf with rfl | rfl | rfl <;> rcases hm with rfl | rfl <;>
      first | exact ⟨_, hread.symm⟩ | exact absurd hkey (by decide)

theorem varies_desk :
    Relation.ReflTransGen (Varies (declared format) declaredKeys) desk notedDesk := by
  have hrename : Varies (declared format) declaredKeys desk
      [("name", ofText "desk"), ("defaultValue", ofText "x")] :=
    .rename [("name", ofText "desk")] [] "value" "defaultValue" "value" (ofText "x") rfl rfl
  have hreorder : Varies (declared format) declaredKeys
      [("name", ofText "desk"), ("defaultValue", ofText "x")]
      [("defaultValue", ofText "x"), ("name", ofText "desk")] :=
    .reorder _ _ (.swap _ _ _)
  have hinsert : Varies (declared format) declaredKeys
      [("defaultValue", ofText "x"), ("name", ofText "desk")] notedDesk :=
    .insert [("defaultValue", ofText "x")] [("name", ofText "desk")] _ rfl
  exact .tail (.tail (.single hrename) hreorder) hinsert

theorem read_varied_desk :
    IsDocument (.object (Members.ofList desk)) deskText ∧
    IsDocument (.object (Members.ofList notedDesk)) notedDeskText ∧
    Fitting (declared format) declaredKeys ["name"] desk ∧
    Relation.ReflTransGen (Varies (declared format) declaredKeys) desk notedDesk ∧
    readDeclared deskText = .ok ⟨"desk", some "x", .entity⟩ ∧
    readDeclared notedDeskText = .ok ⟨"desk", some "x", .entity⟩ := by
  obtain ⟨-, hdeclared, -⟩ := read_varied
  obtain ⟨d, a, -, -, hread, hvaried⟩ := hdeclared desk deskText isDocument_deskText fitting_desk
  have hdesk : readDeclared deskText = .ok ⟨"desk", some "x", .entity⟩ := by decide +kernel
  obtain rfl : a = ⟨"desk", some "x", .entity⟩ := Except.ok.inj (hread.symm.trans hdesk)
  exact ⟨isDocument_deskText, isDocument_notedDeskText, fitting_desk, varies_desk, hdesk,
    hvaried notedDesk notedDeskText varies_desk isDocument_notedDeskText⟩

end Json

end StepTemplate
