import StepTemplate.CommandLine.Run
import StepTemplate.Proofs.Json.Records
import StepTemplate.Proofs.Json.Spelling

namespace StepTemplate

/-!
# Written documents are read back

Reading undoes writing for all records. The steps that an invocation prints may stand as the actions
of another definition, whatever else stands in it.
-/

namespace Json

open Argument Document

variable {α δ : Type} {n : Node} {text : String} {ms : List (String × Node)}

/-! ## Documents -/

theorem readDocument_compactText (hn : n.isPlain = true) (read : Node → Result α) :
    readDocument read (compactText n) = read n :=
  readDocument_of_isDocument (isDocument_compactText hn) read

/-! ## Objects put together of texts -/

/-- Members with their values as texts, and the closing brace. -/
def memberTexts : List (String × List Char) → List Char
  | [] => ['\x7d']
  | [m] => Quoted.write m.1.toList ++ ':' :: (m.2 ++ ['\x7d'])
  | m :: ms => Quoted.write m.1.toList ++ ':' :: (m.2 ++ ',' :: memberTexts ms)

def objectText (members : List (String × String)) : String :=
  String.ofList ('\x7b' :: memberTexts (members.map fun m => (m.1, m.2.toList)))

theorem isWrittenAs_memberTexts {texts : List (String × List Char)}
    (h : List.Forall₂ (fun m t => m.1 = t.1 ∧ m.2.IsPadded t.2) ms texts) :
    (Members.ofList ms).IsWrittenAs (memberTexts texts) := by
  induction h with
  | nil => exact .closed [] isBlank_nil
  | @cons m t ms texts hm hms ih =>
      obtain ⟨key, value⟩ := m
      obtain ⟨key', s⟩ := t
      obtain ⟨rfl, hvalue⟩ : key = key' ∧ value.IsPadded s := hm
      have hkey := (isWrittenAs_ofText key).isPadded
      cases hms with
      | nil => exact .last _ _ _ _ hkey hvalue
      | cons hm' hms' => exact .more _ _ _ _ _ _ _ _ hkey hvalue ih

/-! ## Steps as the actions of a definition -/

/-- A definition with the given text as its actions, between other members. -/
def definitionText (front back : List (String × Node)) (actions : String) : String :=
  objectText ((front.map fun m => (m.1, compactText m.2)) ++ ("actions", actions) ::
    back.map fun m => (m.1, compactText m.2))

theorem forall₂_compactText (h : ∀ m ∈ ms, m.2.isPlain = true) :
    List.Forall₂ (fun m t => m.1 = t.1 ∧ m.2.IsPadded t.2) ms
      ((ms.map fun m => (m.1, compactText m.2)).map fun m => (m.1, m.2.toList)) := by
  rw [List.map_map, List.forall₂_map_right_iff, List.forall₂_same]
  exact fun m hm => ⟨rfl, isDocument_compactText (h m hm)⟩

theorem isDocument_definitionText {front back : List (String × Node)} {actions : Node}
    (hfront : ∀ m ∈ front, m.2.isPlain = true) (hback : ∀ m ∈ back, m.2.isPlain = true)
    (hactions : IsDocument actions text) :
    IsDocument (.object (Members.ofList (front ++ ("actions", actions) :: back)))
      (definitionText front back text) := by
  rw [IsDocument, definitionText, objectText, String.toList_ofList, List.map_append, List.map_cons]
  refine (Node.IsWrittenAs.object _ _ (isWrittenAs_memberTexts ?_)).isPadded
  refine List.rel_append (forall₂_compactText hfront) (.cons ⟨rfl, hactions⟩ ?_)
  exact forall₂_compactText hback

variable {d : GroupDraft} {m : String × Node} {actions : List Step}

theorem readMember_apart {f : Field Node Result GroupDraft}
    (hf : (group format).field? m.1 = some f) (hd : d.actions.isSome = true)
    (hget : f.get { d with actions := some actions } = f.get d)
    (hset : ∀ x, f.set { d with actions := some actions } x =
      { f.set d x with actions := some actions })
    (hkeep : ∀ x, (f.set d x).actions = d.actions) :
    readMember (group format) { d with actions := some actions } m =
        (readMember (group format) d m).map (fun d' => { d' with actions := some actions }) ∧
      ∀ d', readMember (group format) d m = .ok d' → d'.actions.isSome = true := by
  simp only [readMember, hf, hget, readSlot]
  split
  · exact ⟨rfl, fun d' hd' => by cases hd'⟩
  · cases f.read m.2 with
    | error e => exact ⟨rfl, fun d' hd' => by cases hd'⟩
    | ok x =>
        refine ⟨congrArg Except.ok (hset x), fun d' hd' => ?_⟩
        cases hd'
        rw [hkeep]
        exact hd

/-- Once a draft has its actions, no member changes them, and what a member does to the rest of the
draft does not depend on them. -/
theorem readMember_withActions (hd : d.actions.isSome = true) (m : String × Node)
    (actions : List Step) :
    readMember (group format) { d with actions := some actions } m =
        (readMember (group format) d m).map (fun d' => { d' with actions := some actions }) ∧
      ∀ d', readMember (group format) d m = .ok d' → d'.actions.isSome = true := by
  cases hf : (group format).field? m.1 with
  | none =>
      simp only [readMember, hf]
      cases hm : m.2.isWhole with
      | true =>
          refine ⟨rfl, fun d' hd' => ?_⟩
          cases hd'
          exact hd
      | false => exact ⟨rfl, fun d' hd' => by cases hd'⟩
  | some f =>
      have hmem : f ∈ (group format).fields := List.mem_of_find?_eq_some hf
      simp only [group, List.mem_cons, List.not_mem_nil, or_false] at hmem
      rcases hmem with rfl | rfl | rfl
      · exact readMember_apart hf hd rfl (fun _ => rfl) fun _ => rfl
      · exact readMember_apart hf hd rfl (fun _ => rfl) fun _ => rfl
      · -- A second list of actions is refused, whatever the first one was.
        have hfails (d : GroupDraft) (hd : d.actions.isSome = true) :
            readMember (group format) d (m.1, m.2) = .error (.misfit (.duplicateField "actions")) :=
          readMember_of_duplicate hf hd
        rw [hfails _ rfl, hfails d hd]
        exact ⟨rfl, fun d' hd' => by cases hd'⟩

theorem foldlM_withActions (ms : List (String × Node)) (hd : d.actions.isSome = true)
    (actions : List Step) :
    ms.foldlM (readMember (group format)) { d with actions := some actions } =
      (ms.foldlM (readMember (group format)) d).map fun d' =>
        { d' with actions := some actions } := by
  induction ms generalizing d with
  | nil => rfl
  | cons m ms ih =>
      obtain ⟨hmember, hsome⟩ := readMember_withActions hd m actions
      rw [List.foldlM_cons, List.foldlM_cons, hmember]
      cases hread : readMember (group format) d m with
      | error e => rfl
      | ok d' => exact ih (hsome d' hread)

theorem readRecord_withActions (front back : List (String × Node)) (steps : List Step) :
    Node.readRecord (group format)
        (.object (Members.ofList (front ++ ("actions", ofList ofStep steps) :: back))) =
      (Node.readRecord (group format)
        (.object (Members.ofList (front ++ ("actions", .array .closed) :: back)))).map fun g =>
          { g with actions := steps } := by
  have hfield : (group format).field? "actions" = some ⟨"actions", [], List Step,
      Node.readList (Node.readRecord (step format)), (·.actions),
      fun d x => { d with actions := some x }⟩ := rfl
  rw [Node.readRecord, Node.readRecord, readDraft_ofList, readDraft_ofList, List.foldlM_append,
    List.foldlM_append]
  cases front.foldlM (readMember (group format)) (group format).start with
  | error e => rfl
  | ok d =>
      change Except.bind (List.foldlM _ d (_ :: _)) _ =
        Except.map _ (Except.bind (List.foldlM _ d (_ :: _)) _)
      rw [List.foldlM_cons, List.foldlM_cons]
      cases hd : d.actions with
      | some actions =>
          have hfails (n : Node) : readMember (group format) d ("actions", n) =
              .error (.misfit (.duplicateField "actions")) :=
            readMember_of_duplicate hfield (Option.isSome_of_eq_some hd)
          rw [hfails, hfails]
          rfl
      | none =>
          have hreads (n : Node) (xs : List Step)
              (hn : n.readList (Node.readRecord (step format)) = .ok xs) :
              readMember (group format) d ("actions", n) = .ok { d with actions := some xs } :=
            readMember_of_new hfield hd hn
          have hback := foldlM_withActions (d := { d with actions := some [] }) back rfl steps
          rw [hreads _ steps (readList_ofList readStep_ofStep steps), hreads _ [] rfl]
          change Except.bind (back.foldlM _ { d with actions := some steps }) _ =
            Except.map _ (Except.bind (back.foldlM _ { d with actions := some [] }) _)
          rw [hback]
          cases back.foldlM (readMember (group format)) { d with actions := some [] } with
          | error e => rfl
          | ok d' =>
              obtain ⟨name, arguments, actions⟩ := d'
              cases name <;> rfl

/-- What resolving prints for steps. -/
def printed (steps : List Step) : String :=
  CommandLine.unlines [prettyText (ofList ofStep steps)]

theorem isDocument_printed (steps : List Step) :
    IsDocument (ofList ofStep steps) (printed steps) := by
  have htext : printed steps = prettyText (ofList ofStep steps) ++ "\n" := by
    simp [printed, CommandLine.unlines]
  rw [htext]
  exact isDocument_prettyText (isPlain_ofList isPlain_ofStep steps)

theorem isDocument_noActions : IsDocument (.array .closed) "[]" :=
  (Node.IsWrittenAs.array _ _ (.closed [] isBlank_nil)).isPadded

theorem readGroup_definitionText {front back : List (String × Node)}
    (hfront : ∀ m ∈ front, m.2.isPlain = true) (hback : ∀ m ∈ back, m.2.isPlain = true)
    (steps : List Step) :
    readGroup (definitionText front back (printed steps)) =
      (readGroup (definitionText front back "[]")).map fun g => { g with actions := steps } := by
  rw [readGroup,
    readDocument_of_isDocument (isDocument_definitionText hfront hback (isDocument_printed steps)),
    readDocument_of_isDocument (isDocument_definitionText hfront hback isDocument_noActions)]
  exact readRecord_withActions front back steps

/-- Each record is read back from its compact text. The steps that resolving prints may stand as the
actions in any definition, which is then read with these steps and is unchanged otherwise. -/
theorem read_written :
    (∀ g : Group, readGroup (compactText (ofGroup g)) = .ok g) ∧
    (∀ a : Declared, readDeclared (compactText (ofDeclared a)) = .ok a) ∧
    (∀ a : Resolved, readResolved (compactText (ofResolved a)) = .ok a) ∧
    (∀ s : Step, readStep (compactText (ofStep s)) = .ok s) ∧
    (∀ s : Settings, readSettings (compactText (ofSettings s)) = .ok s) ∧
    (∀ (name : String) (arguments : List Declared) (steps : List Step),
      readGroup (definitionText
        [("name", ofText name), ("arguments", ofList ofDeclared arguments)] [] (printed steps)) =
          .ok ⟨name, arguments, steps⟩) ∧
    ∀ (front back : List (String × Node)) (steps : List Step),
      (∀ m ∈ front, m.2.isPlain = true) → (∀ m ∈ back, m.2.isPlain = true) →
      readGroup (definitionText front back (printed steps)) =
        (readGroup (definitionText front back "[]")).map fun g => { g with actions := steps } := by
  refine ⟨fun g => ?_, fun a => ?_, fun a => ?_, fun s => ?_, fun s => ?_, ?_, ?_⟩
  · rw [readGroup, readDocument_compactText (isPlain_ofGroup g), readGroup_ofGroup]
  · rw [readDeclared, readDocument_compactText (isPlain_ofDeclared a), readDeclared_ofDeclared]
  · rw [readResolved, readDocument_compactText (isPlain_ofResolved a), readResolved_ofResolved]
  · rw [readStep, readDocument_compactText (isPlain_ofStep s), readStep_ofStep]
  · rw [readSettings, readDocument_compactText (isPlain_ofSettings s), readSettings_ofSettings]
  · intro name arguments steps
    have harguments := isPlain_ofList isPlain_ofDeclared arguments
    have hfront : ∀ m ∈ [("name", ofText name), ("arguments", ofList ofDeclared arguments)],
        m.2.isPlain = true := by
      simp [isPlain_ofText, harguments]
    have htext := isDocument_definitionText hfront (List.forall_mem_nil _)
      (isDocument_printed steps)
    rw [readGroup, readDocument_of_isDocument htext]
    exact readGroup_ofGroup ⟨name, arguments, steps⟩
  · intro front back steps hfront hback
    exact readGroup_definitionText hfront hback steps

/-- A step with controls and quotes in its texts and a negative offset. -/
def said : Step where
  key := "say\t\"ß\"\x00"
  action := "\\"
  attributes := OrderedMap.ofList [("b", ""), ("a", "\n")]
  link := some "say"
  offset := -2
  origin := .empty

theorem read_written_said :
    readStep (compactText (ofStep said)) = .ok said ∧
    readGroup (definitionText [("note", .null), ("name", ofText "Talk")]
      [("arguments", .array .closed)] (printed [said])) = .ok ⟨"Talk", [], [said]⟩ := by
  obtain ⟨-, -, -, hstep, -, -, hactions⟩ := read_written
  refine ⟨hstep said, ?_⟩
  rw [hactions _ _ [said] (by simp [Node.isPlain, ofText])
    (by simp [Node.isPlain, Items.isPlain])]
  have hempty : readGroup (definitionText [("note", .null), ("name", ofText "Talk")]
      [("arguments", .array .closed)] "[]") = .ok ⟨"Talk", [], []⟩ := by
    decide +kernel
  rw [hempty]
  rfl

end Json

end StepTemplate
