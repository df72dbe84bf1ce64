import StepTemplate.Json.Encoding
import StepTemplate.Proofs.Json.Numeral
import StepTemplate.Proofs.Json.Quoted
import StepTemplate.Proofs.Json.Tree

namespace StepTemplate

/-!
# The grammar of JSON

Which texts a tree has, said without the reader. Blanks may stand around every value and every key,
and in empty brackets. The two texts that are written for a tree are among them.
-/

namespace Json

variable {n x v : Node} {items xs : Items} {members ms : Members} {key : Option String}
  {s t blanks : List Char}

def IsBlank (s : List Char) : Prop :=
  ∀ c ∈ s, Token.isSpace c = true

mutual

/-- The texts of a value. A text that keeps half of a surrogate pair is written by its escape. -/
inductive Node.IsWrittenAs : Node → List Char → Prop where
  | null : Node.IsWrittenAs .null ['n', 'u', 'l', 'l']
  | boolean_true : Node.IsWrittenAs (.boolean true) ['t', 'r', 'u', 'e']
  | boolean_false : Node.IsWrittenAs (.boolean false) ['f', 'a', 'l', 's', 'e']
  | number (n : Numeral) (s : List Char) (h : Numeral.IsWrittenAs n s) :
      Node.IsWrittenAs (.number n) s
  | text (symbols : List Symbol) (s : List Char) (h : Quoted.IsWrittenAs symbols s) :
      Node.IsWrittenAs (.text ((Quoted.chars? symbols).map String.ofList)) ('"' :: (s ++ ['"']))
  | array (items : Items) (s : List Char) (h : Items.IsWrittenAs items s) :
      Node.IsWrittenAs (.array items) ('[' :: s)
  | object (members : Members) (s : List Char) (h : Members.IsWrittenAs members s) :
      Node.IsWrittenAs (.object members) ('\x7b' :: s)

/-- The texts of a value with blanks around it. -/
inductive Node.IsPadded : Node → List Char → Prop where
  | blanks (n : Node) (front s back : List Char) (hfront : IsBlank front) (hback : IsBlank back)
      (h : Node.IsWrittenAs n s) : Node.IsPadded n (front ++ (s ++ back))

/-- The texts of items and the closing bracket. -/
inductive Items.IsWrittenAs : Items → List Char → Prop where
  | closed (blanks : List Char) (hblanks : IsBlank blanks) :
      Items.IsWrittenAs .closed (blanks ++ [']'])
  | last (x : Node) (s : List Char) (hx : Node.IsPadded x s) :
      Items.IsWrittenAs (.cons x .closed) (s ++ [']'])
  | more (x y : Node) (ys : Items) (s t : List Char) (hx : Node.IsPadded x s)
      (hys : Items.IsWrittenAs (.cons y ys) t) :
      Items.IsWrittenAs (.cons x (.cons y ys)) (s ++ ',' :: t)

/-- The texts of members and the closing brace. -/
inductive Members.IsWrittenAs : Members → List Char → Prop where
  | closed (blanks : List Char) (hblanks : IsBlank blanks) :
      Members.IsWrittenAs .closed (blanks ++ ['\x7d'])
  | last (key : Option String) (v : Node) (k s : List Char) (hk : Node.IsPadded (.text key) k)
      (hv : Node.IsPadded v s) :
      Members.IsWrittenAs (.cons (.text key) v .closed) (k ++ ':' :: (s ++ ['\x7d']))
  | more (key : Option String) (v l w : Node) (ms : Members) (k s t : List Char)
      (hk : Node.IsPadded (.text key) k) (hv : Node.IsPadded v s)
      (hms : Members.IsWrittenAs (.cons l w ms) t) :
      Members.IsWrittenAs (.cons (.text key) v (.cons l w ms)) (k ++ ':' :: (s ++ ',' :: t))

end

/-- A document with one value. -/
def IsDocument (n : Node) (text : String) : Prop :=
  n.IsPadded text.toList

theorem isBlank_nil : IsBlank [] := by
  simp [IsBlank]

theorem Node.IsWrittenAs.isPadded (h : n.IsWrittenAs s) : n.IsPadded s := by
  have hpadded := Node.IsPadded.blanks n [] s [] isBlank_nil isBlank_nil h
  rwa [List.nil_append, List.append_nil] at hpadded

mutual

theorem Node.isFormed_of_isWrittenAs {s : List Char} (n : Node) (h : n.IsWrittenAs s) :
    n.isFormed = true := by
  cases h with
  | null | boolean_true | boolean_false | number n s h | text symbols s h => rfl
  | array items s h => exact Items.isFormed_of_isWrittenAs items h
  | object members s h => exact Members.isFormed_of_isWrittenAs members h
termination_by sizeOf n

theorem Items.isFormed_of_isWrittenAs {s : List Char} (items : Items) (h : items.IsWrittenAs s) :
    items.isFormed = true := by
  cases h with
  | closed blanks hblanks => rfl
  | last x s hx =>
      obtain ⟨_, _, _, _, _, _, hx⟩ := hx
      exact Bool.and_eq_true_iff.mpr ⟨Node.isFormed_of_isWrittenAs x hx, rfl⟩
  | more x y ys s t hx hys =>
      obtain ⟨_, _, _, _, _, _, hx⟩ := hx
      exact Bool.and_eq_true_iff.mpr
        ⟨Node.isFormed_of_isWrittenAs x hx, Items.isFormed_of_isWrittenAs (.cons y ys) hys⟩
termination_by sizeOf items

theorem Members.isFormed_of_isWrittenAs {s : List Char} (members : Members)
    (h : members.IsWrittenAs s) : members.isFormed = true := by
  cases h with
  | closed blanks hblanks => rfl
  | last key v k s hk hv =>
      obtain ⟨_, _, _, _, _, _, hv⟩ := hv
      exact Bool.and_eq_true_iff.mpr ⟨Node.isFormed_of_isWrittenAs v hv, rfl⟩
  | more key v l w ms k s t hk hv hms =>
      obtain ⟨_, _, _, _, _, _, hv⟩ := hv
      exact Bool.and_eq_true_iff.mpr
        ⟨Node.isFormed_of_isWrittenAs v hv, Members.isFormed_of_isWrittenAs (.cons l w ms) hms⟩
termination_by sizeOf members

end

theorem Node.IsPadded.isFormed (h : n.IsPadded s) : n.isFormed = true := by
  obtain ⟨_, _, _, _, _, _, h⟩ := h
  exact n.isFormed_of_isWrittenAs h

/-! ## Compact texts -/

theorem isWrittenAs_ofText (u : String) : (ofText u).IsWrittenAs (Quoted.write u.toList) := by
  have htext := Node.IsWrittenAs.text _ _ (Quoted.isWrittenAs_flatMap_escape u.toList)
  rwa [Quoted.chars?_char, Option.map_some, String.ofList_toList] at htext

mutual

theorem Node.isWrittenAs_compact (n : Node) (hn : n.isPlain = true) : n.IsWrittenAs n.compact := by
  cases n with
  | null => exact .null
  | boolean b => cases b <;> first | exact .boolean_true | exact .boolean_false
  | number m => exact .number m _ m.isWrittenAs_write
  | text s =>
      cases s with
      | none => exact absurd hn Bool.false_ne_true
      | some u => exact isWrittenAs_ofText u
  | array items => exact .array items _ (Items.isWrittenAs_compact items hn)
  | object members => exact .object members _ (Members.isWrittenAs_compact members hn)
  | broken => exact absurd hn Bool.false_ne_true
termination_by sizeOf n

theorem Items.isWrittenAs_compact (items : Items) (h : items.isPlain = true) :
    items.IsWrittenAs items.compact := by
  cases items with
  | closed => exact .closed [] isBlank_nil
  | cut => exact absurd h Bool.false_ne_true
  | cons x xs =>
      obtain ⟨hx, hxs⟩ := Bool.and_eq_true_iff.mp h
      have hitem := (Node.isWrittenAs_compact x hx).isPadded
      cases xs with
      | closed => exact .last x _ hitem
      | cut => exact absurd hxs Bool.false_ne_true
      | cons y ys => exact .more x y ys _ _ hitem (Items.isWrittenAs_compact (.cons y ys) hxs)
termination_by sizeOf items

theorem Members.isWrittenAs_compact (members : Members) (h : members.isPlain = true) :
    members.IsWrittenAs members.compact := by
  cases members with
  | closed => exact .closed [] isBlank_nil
  | cut => exact absurd h Bool.false_ne_true
  | cons k v ms =>
      simp only [Members.isPlain, Bool.and_eq_true] at h
      obtain ⟨⟨hk, hv⟩, hms⟩ := h
      obtain ⟨u, rfl⟩ := Node.exists_of_isText hk
      have hkey := (isWrittenAs_ofText u).isPadded
      have hvalue := (Node.isWrittenAs_compact v hv).isPadded
      cases ms with
      | closed => exact .last (some u) v _ _ hkey hvalue
      | cut => exact absurd hms Bool.false_ne_true
      | cons l w ms =>
          have hrest := Members.isWrittenAs_compact (.cons l w ms) hms
          exact .more (some u) v l w ms _ _ _ hkey hvalue hrest
termination_by sizeOf members

end

theorem isDocument_compactText (hn : n.isPlain = true) : IsDocument n (compactText n) := by
  rw [IsDocument, compactText, String.toList_ofList]
  exact (n.isWrittenAs_compact hn).isPadded

/-! ## Texts over several lines -/

theorem isBlank_newLine (depth : Nat) : IsBlank (newLine depth) := by
  intro c hc
  rcases List.mem_cons.mp hc with rfl | hc
  · rfl
  · rw [List.eq_of_mem_replicate hc]
    rfl

theorem isBlank_space : IsBlank [' '] := by
  simp [IsBlank, Token.isSpace]

theorem Members.pretty_last (depth : Nat) (key : String) (v : Node) :
    (Members.cons (ofText key) v .closed).pretty depth =
      (newLine depth ++ (Quoted.write key.toList ++ [])) ++ ':' ::
        (([' '] ++ (v.pretty depth ++ newLine (depth - 1))) ++ ['\x7d']) := by
  simp [Members.pretty, Node.pretty, writeText, ofText]

theorem Members.pretty_more (depth : Nat) (key : String) (v l w : Node) (ms : Members) :
    (Members.cons (ofText key) v (.cons l w ms)).pretty depth =
      (newLine depth ++ (Quoted.write key.toList ++ [])) ++ ':' ::
        (([' '] ++ (v.pretty depth ++ [])) ++ ',' :: (Members.cons l w ms).pretty depth) := by
  simp [Members.pretty, Node.pretty, writeText, ofText]

mutual

theorem Node.isWrittenAs_pretty (n : Node) (hn : n.isPlain = true) (depth : Nat) :
    n.IsWrittenAs (n.pretty depth) := by
  cases n with
  | null => exact .null
  | boolean b => cases b <;> first | exact .boolean_true | exact .boolean_false
  | number m => exact .number m _ m.isWrittenAs_write
  | text s =>
      cases s with
      | none => exact absurd hn Bool.false_ne_true
      | some u => exact isWrittenAs_ofText u
  | array items =>
      cases items with
      | closed => exact .array _ _ (.closed [] isBlank_nil)
      | cut => exact absurd hn Bool.false_ne_true
      | cons x xs => exact .array _ _ (Items.isWrittenAs_pretty (.cons x xs) hn (depth + 1))
  | object members =>
      cases members with
      | closed => exact .object _ _ (.closed [] isBlank_nil)
      | cut => exact absurd hn Bool.false_ne_true
      | cons k v ms => exact .object _ _ (Members.isWrittenAs_pretty (.cons k v ms) hn (depth + 1))
  | broken => exact absurd hn Bool.false_ne_true
termination_by sizeOf n

theorem Items.isWrittenAs_pretty (items : Items) (h : items.isPlain = true) (depth : Nat) :
    items.IsWrittenAs (items.pretty depth) := by
  cases items with
  | closed => exact .closed _ (isBlank_newLine _)
  | cut => exact absurd h Bool.false_ne_true
  | cons x xs =>
      obtain ⟨hx, hxs⟩ := Bool.and_eq_true_iff.mp h
      have hitem := Node.isWrittenAs_pretty x hx depth
      cases xs with
      | closed =>
          rw [Items.pretty, List.append_assoc (newLine depth)]
          exact .last x _ (.blanks x _ _ _ (isBlank_newLine depth) (isBlank_newLine _) hitem)
      | cut => exact absurd hxs Bool.false_ne_true
      | cons y ys =>
          have hpadded := Node.IsPadded.blanks x _ _ [] (isBlank_newLine depth) isBlank_nil hitem
          rw [List.append_nil] at hpadded
          exact .more x y ys _ _ hpadded (Items.isWrittenAs_pretty (.cons y ys) hxs depth)
termination_by sizeOf items

theorem Members.isWrittenAs_pretty (members : Members) (h : members.isPlain = true) (depth : Nat) :
    members.IsWrittenAs (members.pretty depth) := by
  cases members with
  | closed => exact .closed _ (isBlank_newLine _)
  | cut => exact absurd h Bool.false_ne_true
  | cons k v ms =>
      simp only [Members.isPlain, Bool.and_eq_true] at h
      obtain ⟨⟨hk, hv⟩, hms⟩ := h
      obtain ⟨u, rfl⟩ := Node.exists_of_isText hk
      have hkey := Node.IsPadded.blanks _ _ _ [] (isBlank_newLine depth) isBlank_nil
        (isWrittenAs_ofText u)
      have hvalue := Node.isWrittenAs_pretty v hv depth
      cases ms with
      | closed =>
          rw [← ofText, Members.pretty_last]
          exact .last (some u) v _ _ hkey
            (.blanks v _ _ _ isBlank_space (isBlank_newLine _) hvalue)
      | cut => exact absurd hms Bool.false_ne_true
      | cons l w ms =>
          have hrest := Members.isWrittenAs_pretty (.cons l w ms) hms depth
          rw [← ofText, Members.pretty_more]
          exact .more (some u) v l w ms _ _ _ hkey
            (.blanks v _ _ _ isBlank_space isBlank_nil hvalue) hrest
termination_by sizeOf members

end

theorem isDocument_prettyText (hn : n.isPlain = true) : IsDocument n (prettyText n ++ "\n") := by
  have htext : (prettyText n ++ "\n").toList = [] ++ (n.pretty 0 ++ ['\n']) := by
    simp [prettyText]
  rw [IsDocument, htext]
  exact .blanks _ _ _ _ isBlank_nil (by simp [IsBlank, Token.isSpace]) (n.isWrittenAs_pretty hn 0)

end Json

end StepTemplate
