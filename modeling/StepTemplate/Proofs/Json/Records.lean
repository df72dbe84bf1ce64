import StepTemplate.Json.Decoding
import StepTemplate.Json.Encoding
import StepTemplate.Proofs.Json.Tree
import StepTemplate.Proofs.Json.Numeral
import StepTemplate.Proofs.OrderedMap

namespace StepTemplate

/-!
# Records are read back from their trees

A member that is written for a field is read into that field of the draft. What is left out stands
for the value that the reader puts in its place.
-/

namespace Json

open Document Argument

variable {α δ : Type}

/-! ## Parts of a record -/

theorem readText_ofText (s : String) : (ofText s).readText = .ok s := rfl

theorem readOptionalText_ofText (s : String) : (ofText s).readOptionalText = .ok (some s) := rfl

theorem readKind_ofKind (k : Kind) : (ofKind k).readKind = .ok k := by
  rw [ofKind, ofText, Node.readKind, kindOfWord, Kind.ofWord?_word]

theorem readOffset_ofOffset (n : Int32) : (ofOffset n).readOffset = .ok n := by
  have hlow := Int32.minValue_le_toInt n
  have hhigh := Int32.toInt_le n
  have hvalue : (Numeral.ofInt n.toInt).value? = some (.integer n.toInt) := by
    have hmin : Int32.minValue.toInt = -2147483648 := rfl
    have hmax : Int32.maxValue.toInt = 2147483647 := rfl
    exact Numeral.value?_ofInt (by omega) (by omega)
  rw [ofOffset, Node.readOffset, hvalue]
  dsimp only
  rw [Step.offsetOf?_toInt]

theorem readEach_ofList {read : Node → Result α} {f : α → Node} (h : ∀ x, read (f x) = .ok x)
    (xs : List α) : (Items.ofList (xs.map f)).readEach read = .ok xs := by
  induction xs with
  | nil => rfl
  | cons x xs ih =>
      rw [List.map_cons, Items.ofList, Items.readEach, h, ih]
      rfl

theorem readList_ofList {read : Node → Result α} {f : α → Node} (h : ∀ x, read (f x) = .ok x)
    (xs : List α) : (ofList f xs).readList read = .ok xs :=
  readEach_ofList h xs

theorem readTexts_ofList (m : OrderedMap String String) (es : List (String × String)) :
    (Members.ofList (es.map fun e => (e.1, ofText e.2))).readTexts m = .ok (m.insertAll es) := by
  induction es generalizing m with
  | nil => rfl
  | cons e es ih => exact ih (m.insert e.1 e.2)

theorem readTextMap_ofTextMap (m : OrderedMap String String) :
    (ofTextMap m).readTextMap = .ok m := by
  have hread := readTexts_ofList .empty m.entries
  rw [← OrderedMap.ofList, OrderedMap.ofList_entries] at hread
  exact hread

/-! ## Members -/

variable {r : Record Node Result δ α} {d d' d'' : δ} {ms ns : List (String × Node)}

/-- What a member does to a draft. -/
def readMember (r : Record Node Result δ α) (d : δ) (m : String × Node) : Result δ :=
  match r.field? m.1 with
  | some f =>
    if (f.get d).isSome then .error (.misfit (.duplicateField f.name)) else readSlot f d m.2
  | none => if m.2.isWhole then .ok d else .error .malformed

variable {f : Field Node Result δ} {key : String} {value : Node}

theorem readMember_of_new {x : f.Slot} (hf : r.field? key = some f) (hnew : f.get d = none)
    (hx : f.read value = .ok x) : readMember r d (key, value) = .ok (f.set d x) := by
  simp only [readMember, hf, hnew, readSlot, hx]
  rfl

theorem readMember_of_duplicate (hf : r.field? key = some f) (hd : (f.get d).isSome = true) :
    readMember r d (key, value) = .error (.misfit (.duplicateField f.name)) := by
  simp only [readMember, hf]
  exact if_pos hd

theorem readDraft_ofList (r : Record Node Result δ α) (ms : List (String × Node)) (d : δ) :
    (Members.ofList ms).readDraft r d = ms.foldlM (readMember r) d := by
  induction ms generalizing d with
  | nil => rfl
  | cons m ms ih =>
      simp only [Members.ofList, Members.readDraft, List.foldlM_cons, readMember]
      cases hf : r.field? m.1 with
      | none =>
          cases hm : m.2.isWhole with
          | true => exact ih d
          | false => rfl
      | some f =>
          dsimp only
          by_cases hget : (f.get d).isSome = true
          · rw [if_pos hget, if_pos hget]
            rfl
          · rw [if_neg hget, if_neg hget]
            cases readSlot f d m.2 with
            | error e => rfl
            | ok d' => exact ih d'

/-- The members turn the draft `d` into the draft `d'`. -/
def Fills (r : Record Node Result δ α) (ms : List (String × Node)) (d d' : δ) : Prop :=
  ms.foldlM (readMember r) d = .ok d'

theorem Fills.append (h : Fills r ms d d') (h' : Fills r ns d' d'') : Fills r (ms ++ ns) d d'' := by
  rw [Fills, List.foldlM_append, h]
  exact h'

theorem fills_nil (r : Record Node Result δ α) (d : δ) : Fills r [] d d := rfl

theorem Fills.cons {x : f.Slot} (hf : r.field? key = some f) (hnew : f.get d = none)
    (hx : f.read value = .ok x) (h : Fills r ms (f.set d x) d') :
    Fills r ((key, value) :: ms) d d' := by
  rw [Fills, List.foldlM_cons, readMember_of_new hf hnew hx]
  exact h

theorem readRecord_of_fills {a : α} (h : Fills r ms r.start d) (hfinish : r.finish d = .ok a) :
    Node.readRecord r (.object (Members.ofList ms)) = .ok a := by
  rw [Node.readRecord, readDraft_ofList, h]
  exact congrArg (Except.mapError _) hfinish

/-! ## Records -/

theorem readDeclared_ofDeclared (a : Declared) :
    Node.readRecord (declared format) (ofDeclared a) = .ok a := by
  obtain ⟨name, value, kind⟩ := a
  have hname := readText_ofText name
  have hkind := readKind_ofKind kind
  cases value with
  | none =>
      apply readRecord_of_fills (d := ⟨some name, none, some kind⟩)
      · exact .cons rfl rfl hname (.cons rfl rfl hkind (fills_nil _ _))
      · rfl
  | some value =>
      have hvalue := readOptionalText_ofText value
      apply readRecord_of_fills (d := ⟨some name, some (some value), some kind⟩)
      · exact .cons rfl rfl hname (.cons rfl rfl hvalue (.cons rfl rfl hkind (fills_nil _ _)))
      · rfl

theorem readResolved_ofResolved (a : Resolved) :
    Node.readRecord (resolved format) (ofResolved a) = .ok a := by
  have hname := readText_ofText a.name
  have hvalue := readText_ofText a.value
  have hkind := readKind_ofKind a.kind
  apply readRecord_of_fills (d := ⟨some a.name, some a.value, some a.kind⟩)
  · exact .cons rfl rfl hname (.cons rfl rfl hvalue (.cons rfl rfl hkind (fills_nil _ _)))
  · rfl

theorem fills_link (d : StepDraft) (hd : d.link = none) (link : Option String) :
    Fills (step format) (optionalMember "linkedAction" (link.map ofText)) d
      { d with link := link.map some } := by
  cases link with
  | none =>
      obtain ⟨key, action, attributes, link, offset, origin⟩ := d
      obtain rfl : link = none := hd
      exact fills_nil _ _
  | some l => exact .cons rfl hd (readOptionalText_ofText l) (fills_nil _ _)

theorem fills_origin (d : StepDraft) (hd : d.origin = none) (origin : OrderedMap String String) :
    Fills (step format)
      (optionalMember "actionOrigin" (if origin.isEmpty then none else some (ofTextMap origin))) d
      { d with origin := if origin.isEmpty then none else some origin } := by
  cases origin.isEmpty with
  | true =>
      obtain ⟨key, action, attributes, link, offset, origin⟩ := d
      obtain rfl : origin = none := hd
      exact fills_nil _ _
  | false => exact .cons rfl hd (readTextMap_ofTextMap origin) (fills_nil _ _)

theorem readStep_ofStep (s : Step) : Node.readRecord (step format) (ofStep s) = .ok s := by
  have hhead : Fills (step format)
      [("stepKey", ofText s.key), ("type", ofText s.action), ("attributes", ofTextMap s.attributes)]
      {} { key := some s.key, action := some s.action, attributes := some s.attributes } :=
    .cons rfl rfl (readText_ofText s.key)
      (.cons rfl rfl (readText_ofText s.action)
        (.cons rfl rfl (readTextMap_ofTextMap s.attributes) (fills_nil _ _)))
  have hoffset (d : StepDraft) (hd : d.offset = none) :
      Fills (step format) [("orderOffset", ofOffset s.offset)] d
        { d with offset := some s.offset } :=
    .cons rfl hd (readOffset_ofOffset s.offset) (fills_nil _ _)
  have horigin : (if s.origin.isEmpty then none else some s.origin).getD .empty = s.origin := by
    split
    · next h => exact OrderedMap.ext (List.isEmpty_iff.mp h).symm
    · rfl
  have hlink : (s.link.map some).getD none = s.link := by
    cases s.link <;> rfl
  refine readRecord_of_fills (((hhead.append (fills_link _ rfl s.link)).append
    (hoffset _ rfl)).append (fills_origin _ rfl s.origin)) ?_
  change Except.ok (⟨s.key, s.action, s.attributes, (s.link.map some).getD none, s.offset,
    (if s.origin.isEmpty then none else some s.origin).getD .empty⟩ : Step) = .ok s
  rw [hlink, horigin]

theorem readGroup_ofGroup (g : Group) : Node.readRecord (group format) (ofGroup g) = .ok g := by
  have hname := readText_ofText g.name
  have harguments := readList_ofList readDeclared_ofDeclared g.arguments
  have hactions := readList_ofList readStep_ofStep g.actions
  apply readRecord_of_fills (d := ⟨some g.name, some g.arguments, some g.actions⟩)
  · exact .cons rfl rfl hname (.cons rfl rfl harguments (.cons rfl rfl hactions (fills_nil _ _)))
  · rfl

theorem readSettings_ofSettings (s : Settings) :
    Node.readRecord (settings format) (ofSettings s) = .ok s := by
  have hattributes := readList_ofList readText_ofText s.variableAttributes
  apply readRecord_of_fills (d := ⟨some s.variableAttributes⟩)
  · exact .cons rfl rfl hattributes (fills_nil _ _)
  · rfl

/-! ## Written trees are plain -/

theorem isPlain_ofText (s : String) : (ofText s).isPlain = true := rfl

theorem isPlain_items {xs : List Node} (h : ∀ x ∈ xs, x.isPlain = true) :
    (Items.ofList xs).isPlain = true := by
  induction xs with
  | nil => rfl
  | cons x xs ih =>
      obtain ⟨hx, hxs⟩ := List.forall_mem_cons.mp h
      exact Bool.and_eq_true_iff.mpr ⟨hx, ih hxs⟩

theorem isPlain_members (h : ∀ m ∈ ms, m.2.isPlain = true) :
    (Members.ofList ms).isPlain = true := by
  induction ms with
  | nil => rfl
  | cons m ms ih =>
      obtain ⟨hm, hms⟩ := List.forall_mem_cons.mp h
      exact Bool.and_eq_true_iff.mpr ⟨hm, ih hms⟩

theorem isPlain_ofList {f : α → Node} (h : ∀ x, (f x).isPlain = true) (xs : List α) :
    (ofList f xs).isPlain = true := by
  apply isPlain_items
  intro n hn
  obtain ⟨x, -, rfl⟩ := List.mem_map.mp hn
  exact h x

theorem isPlain_ofTextMap (m : OrderedMap String String) : (ofTextMap m).isPlain = true := by
  apply isPlain_members
  intro e he
  obtain ⟨e, -, rfl⟩ := List.mem_map.mp he
  rfl

theorem isPlain_optionalMember {name : String} {o : Option Node}
    (h : ∀ n ∈ o, n.isPlain = true) : ∀ m ∈ optionalMember name o, m.2.isPlain = true := by
  cases o with
  | none => simp [optionalMember]
  | some n => simpa [optionalMember] using h

theorem isPlain_ofDeclared (a : Declared) : (ofDeclared a).isPlain = true := by
  obtain ⟨name, value, kind⟩ := a
  cases value <;> rfl

theorem isPlain_ofResolved (a : Resolved) : (ofResolved a).isPlain = true := rfl

theorem isPlain_ofStep (s : Step) : (ofStep s).isPlain = true := by
  apply isPlain_members
  simp only [List.forall_mem_append]
  refine ⟨⟨⟨?_, isPlain_optionalMember ?_⟩, ?_⟩, isPlain_optionalMember ?_⟩
  · simp [isPlain_ofText, isPlain_ofTextMap s.attributes]
  · intro n hn
    obtain ⟨l, -, rfl⟩ := Option.map_eq_some_iff.mp hn
    rfl
  · intro m hm
    obtain rfl := List.mem_singleton.mp hm
    rfl
  · intro n hn
    split at hn
    · simp at hn
    · obtain rfl := Option.some.inj hn
      exact isPlain_ofTextMap s.origin

theorem isPlain_ofGroup (g : Group) : (ofGroup g).isPlain = true := by
  apply isPlain_members
  have harguments := isPlain_ofList isPlain_ofDeclared g.arguments
  have hactions := isPlain_ofList isPlain_ofStep g.actions
  simp [isPlain_ofText, harguments, hactions]

theorem isPlain_ofSettings (s : Settings) : (ofSettings s).isPlain = true := by
  apply isPlain_members
  have hattributes := isPlain_ofList isPlain_ofText s.variableAttributes
  simp [hattributes]

end Json

end StepTemplate
