namespace StepTemplate

/-!
# Maps in order of insertion

A map keeps its entries in the order in which their keys came first. Inserting a key again
replaces the value and leaves the position alone.
-/

/-- Entries with distinct keys, in order of insertion. -/
structure OrderedMap (α β : Type) where
  entries : List (α × β)
  nodup : (entries.map Prod.fst).Nodup

namespace OrderedMap

variable {α β γ : Type}

@[ext] theorem ext {m n : OrderedMap α β} (h : m.entries = n.entries) : m = n := by
  cases m
  cases n
  cases h
  rfl

instance [DecidableEq α] [DecidableEq β] : DecidableEq (OrderedMap α β) := fun m n =>
  decidable_of_iff (m.entries = n.entries) ⟨ext, fun h => h ▸ rfl⟩

instance [Repr α] [Repr β] : Repr (OrderedMap α β) := ⟨fun m n => reprPrec m.entries n⟩

def empty : OrderedMap α β := ⟨[], by simp⟩

instance : Inhabited (OrderedMap α β) := ⟨empty⟩

@[simp] theorem entries_empty : (empty : OrderedMap α β).entries = [] := rfl

def keys (m : OrderedMap α β) : List α :=
  m.entries.map Prod.fst

def values (m : OrderedMap α β) : List β :=
  m.entries.map Prod.snd

def size (m : OrderedMap α β) : Nat :=
  m.entries.length

def isEmpty (m : OrderedMap α β) : Bool :=
  m.entries.isEmpty

theorem keys_nodup (m : OrderedMap α β) : m.keys.Nodup :=
  m.nodup

variable [DecidableEq α]

/-- Puts an entry in place of the one with the same key, or at the end. -/
def insertEntry (k : α) (v : β) : List (α × β) → List (α × β)
  | [] => [(k, v)]
  | e :: es => if e.1 = k then (k, v) :: es else e :: insertEntry k v es

theorem keys_insertEntry (k : α) (v : β) (es : List (α × β)) :
    (insertEntry k v es).map Prod.fst =
      if k ∈ es.map Prod.fst then es.map Prod.fst else es.map Prod.fst ++ [k] := by
  induction es with
  | nil => simp [insertEntry]
  | cons e es ih =>
    by_cases h : e.1 = k
    · simp [insertEntry, h]
    · have hk : k ∈ (e :: es).map Prod.fst ↔ k ∈ es.map Prod.fst := by
        simp [Ne.symm h]
      simp only [insertEntry, h, if_false, List.map_cons, ih]
      by_cases hm : k ∈ es.map Prod.fst
      · rw [if_pos hm, if_pos (by simpa using Or.inr (by simpa using hm))]
      · rw [if_neg hm, if_neg (by simpa [Ne.symm h] using hm), List.cons_append]

theorem nodup_insertEntry (k : α) (v : β) {es : List (α × β)} (h : (es.map Prod.fst).Nodup) :
    ((insertEntry k v es).map Prod.fst).Nodup := by
  rw [keys_insertEntry]
  split
  · exact h
  · next hk =>
    refine List.nodup_append.mpr ⟨h, by simp, ?_⟩
    intro a ha b hb
    obtain rfl : b = k := by simpa using hb
    rintro rfl
    exact hk ha

/-- Sets the value of a key; a new key goes to the end. -/
def insert (m : OrderedMap α β) (k : α) (v : β) : OrderedMap α β :=
  ⟨insertEntry k v m.entries, nodup_insertEntry k v m.nodup⟩

@[simp] theorem entries_insert (m : OrderedMap α β) (k : α) (v : β) :
    (m.insert k v).entries = insertEntry k v m.entries := rfl

def insertAll (m : OrderedMap α β) (es : List (α × β)) : OrderedMap α β :=
  es.foldl (fun m e => m.insert e.1 e.2) m

/-- The map with the given entries: of equal keys the last value at the first position. -/
def ofList (es : List (α × β)) : OrderedMap α β :=
  empty.insertAll es

def findEntry (k : α) : List (α × β) → Option β
  | [] => none
  | e :: es => if e.1 = k then some e.2 else findEntry k es

theorem findEntry_insertEntry (k x : α) (v : β) (es : List (α × β)) :
    findEntry x (insertEntry k v es) = if k = x then some v else findEntry x es := by
  induction es with
  | nil => rfl
  | cons e es ih =>
    by_cases he : e.1 = k
    · subst he
      by_cases hx : e.1 = x <;> simp [insertEntry, findEntry, hx]
    · by_cases hx : e.1 = x
      · subst hx
        simp [insertEntry, findEntry, he, Ne.symm he]
      · simp [insertEntry, findEntry, he, hx, ih]

def get? (m : OrderedMap α β) (k : α) : Option β :=
  findEntry k m.entries

@[simp] theorem get?_empty (k : α) : (empty : OrderedMap α β).get? k = none := rfl

@[simp] theorem get?_insert (m : OrderedMap α β) (k x : α) (v : β) :
    (m.insert k v).get? x = if k = x then some v else m.get? x :=
  findEntry_insertEntry k x v m.entries

omit [DecidableEq α] in
/-- Changes the values and keeps the keys. -/
def mapValues (f : α → β → γ) (m : OrderedMap α β) : OrderedMap α γ :=
  ⟨m.entries.map fun e => (e.1, f e.1 e.2), by
    have : (m.entries.map fun e => (e.1, f e.1 e.2)).map Prod.fst = m.entries.map Prod.fst := by
      simp [Function.comp_def]
    exact this ▸ m.nodup⟩

omit [DecidableEq α] in
@[simp] theorem keys_mapValues (f : α → β → γ) (m : OrderedMap α β) :
    (m.mapValues f).keys = m.keys := by
  simp [keys, mapValues, Function.comp_def]

end OrderedMap

end StepTemplate
