import Mathlib.Data.List.Forall2
import Mathlib.Data.List.Induction
import StepTemplate.OrderedMap

namespace StepTemplate

/-!
# The map of a list of entries

Of entries with one key the map keeps the last value at the first position. It looks at keys only
to compare them, so renaming the keys without making two of them equal renames the map.
-/

theorem eraseDups_concat {α : Type} [BEq α] [LawfulBEq α] (l : List α) (x : α) :
    (l ++ [x]).eraseDups = if x ∈ l then l.eraseDups else l.eraseDups ++ [x] := by
  rw [List.eraseDups_append]
  by_cases h : x ∈ l <;> simp [List.removeAll, h, List.eraseDups_cons]

namespace OrderedMap

variable {α β γ δ : Type} [DecidableEq α] {k : α} {v : β}

theorem keys_insert (m : OrderedMap α β) (k : α) (v : β) :
    (m.insert k v).keys = if k ∈ m.keys then m.keys else m.keys ++ [k] :=
  keys_insertEntry k v m.entries

@[simp] theorem ofList_nil : (ofList [] : OrderedMap α β) = empty := rfl

theorem ofList_concat (es : List (α × β)) (e : α × β) :
    ofList (es ++ [e]) = (ofList es).insert e.1 e.2 := by
  simp [ofList, insertAll]

theorem mem_insertEntry {e : α × β} {es : List (α × β)} (h : e ∈ insertEntry k v es) :
    e = (k, v) ∨ e ∈ es := by
  induction es with
  | nil => exact Or.inl (List.mem_singleton.mp h)
  | cons d es ih =>
      rw [insertEntry] at h
      split at h
      · exact (List.mem_cons.mp h).imp_right (List.mem_cons_of_mem d)
      · rcases List.mem_cons.mp h with rfl | h
        · exact Or.inr List.mem_cons_self
        · exact (ih h).imp_right (List.mem_cons_of_mem d)

theorem mem_of_mem_entries_ofList {e : α × β} {es : List (α × β)}
    (h : e ∈ (ofList es).entries) : e ∈ es := by
  induction es using List.reverseRecOn with
  | nil => exact h
  | append_singleton es d ih =>
      rw [ofList_concat, entries_insert] at h
      rcases mem_insertEntry h with rfl | h
      · exact List.mem_append_right es (List.mem_singleton_self _)
      · exact List.mem_append_left _ (ih h)

/-- The keys in the order in which they came first. -/
theorem keys_ofList (es : List (α × β)) : (ofList es).keys = (es.map Prod.fst).eraseDups := by
  induction es using List.reverseRecOn with
  | nil => rfl
  | append_singleton es e ih =>
      rw [ofList_concat, keys_insert, List.map_append, List.map_singleton, eraseDups_concat, ih]
      simp only [List.mem_eraseDups]

/-- The value of a key is the last one that came with it. -/
theorem get?_ofList (es : List (α × β)) (k : α) :
    (ofList es).get? k = (es.findRev? (·.1 == k)).map Prod.snd := by
  induction es using List.reverseRecOn with
  | nil => rfl
  | append_singleton es e ih =>
      rw [ofList_concat, get?_insert, ih, List.findRev?_eq_find?_reverse,
        List.findRev?_eq_find?_reverse, List.reverse_append]
      by_cases h : e.1 = k <;> simp [h]

theorem findEntry_of_mem {es : List (α × β)} (hnodup : (es.map Prod.fst).Nodup)
    (h : (k, v) ∈ es) : findEntry k es = some v := by
  induction es with
  | nil => simp at h
  | cons e es ih =>
      rw [List.map_cons, List.nodup_cons] at hnodup
      rcases List.mem_cons.mp h with rfl | h
      · simp [findEntry]
      · have hne : e.1 ≠ k := by
          rintro rfl
          exact hnodup.1 (List.mem_map.mpr ⟨(e.1, v), h, rfl⟩)
        rw [findEntry, if_neg hne]
        exact ih hnodup.2 h

theorem mem_of_findEntry {es : List (α × β)} (h : findEntry k es = some v) :
    (k, v) ∈ es := by
  induction es with
  | nil => simp [findEntry] at h
  | cons e es ih =>
      rw [findEntry] at h
      split at h
      · next hk =>
        obtain rfl : e.2 = v := by simpa using h
        simp [← hk]
      · exact List.mem_cons_of_mem e (ih h)

theorem mem_entries_of_get? {m : OrderedMap α β} (h : m.get? k = some v) :
    (k, v) ∈ m.entries :=
  mem_of_findEntry h

theorem get?_eq_some_iff {m : OrderedMap α β} : m.get? k = some v ↔ (k, v) ∈ m.entries :=
  ⟨mem_entries_of_get?, findEntry_of_mem m.nodup⟩

theorem get?_eq_of_perm {m n : OrderedMap α β} (h : m.entries.Perm n.entries) (k : α) :
    m.get? k = n.get? k := by
  apply Option.ext
  intro v
  rw [get?_eq_some_iff, get?_eq_some_iff, h.mem_iff]

theorem insertEntry_of_notMem {es : List (α × β)} (h : k ∉ es.map Prod.fst) :
    insertEntry k v es = es ++ [(k, v)] := by
  induction es with
  | nil => rfl
  | cons e es ih =>
      rw [List.map_cons, List.mem_cons, not_or] at h
      rw [insertEntry, if_neg (Ne.symm h.1), ih h.2, List.cons_append]

theorem entries_ofList_of_nodup {es : List (α × β)} (h : (es.map Prod.fst).Nodup) :
    (ofList es).entries = es := by
  induction es using List.reverseRecOn with
  | nil => rfl
  | append_singleton es e ih =>
      rw [List.map_append, List.map_singleton, List.nodup_append] at h
      obtain ⟨hes, -, hne⟩ := h
      have hnew : e.1 ∉ es.map Prod.fst := fun hmem => hne _ hmem _ (List.mem_singleton_self _) rfl
      rw [ofList_concat, entries_insert, ih hes, insertEntry_of_notMem hnew]

theorem ofList_entries (m : OrderedMap α β) : ofList m.entries = m :=
  ext (entries_ofList_of_nodup m.nodup)

/-- The values stand in the order of their keys. -/
theorem forall₂_keys_values (m : OrderedMap α β) :
    List.Forall₂ (fun k v => m.get? k = some v) m.keys m.values := by
  rw [keys, values, List.forall₂_map_left_iff, List.forall₂_map_right_iff, List.forall₂_same]
  intro e he
  exact findEntry_of_mem m.nodup he

/-! ## Renaming the keys -/

variable [DecidableEq γ] {ρ : α → γ} {f : β → δ}

theorem insertEntry_map (hρ : Function.Injective ρ) (k : α) (v : β) (es : List (α × β)) :
    insertEntry (ρ k) (f v) (es.map (Prod.map ρ f)) = (insertEntry k v es).map (Prod.map ρ f) := by
  induction es with
  | nil => rfl
  | cons e es ih =>
      by_cases h : e.1 = k
      · simp [insertEntry, h]
      · have hρne : ρ e.1 ≠ ρ k := hρ.ne h
        simp [insertEntry, h, hρne, ih]

theorem entries_ofList_map (hρ : Function.Injective ρ) (es : List (α × β)) :
    (ofList (es.map (Prod.map ρ f))).entries = (ofList es).entries.map (Prod.map ρ f) := by
  induction es using List.reverseRecOn with
  | nil => rfl
  | append_singleton es e ih =>
      rw [List.map_append, List.map_singleton, ofList_concat, ofList_concat, entries_insert,
        entries_insert, ih]
      exact insertEntry_map hρ e.1 e.2 _

end OrderedMap

end StepTemplate
