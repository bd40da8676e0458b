import CommandWire.Proofs.Method.Table

/-!
# The three look-ups of a method table

A sender asks a table for the index of a method; a receiver asks for the method with an index, or
for the method with a signature. If they disagreed, the receiver would decode arguments with the
codecs of another method. In every table that insertions lead to they agree (`coherent_insertAll`):
each says which method stands at which position, and nothing else.
-/

namespace CommandWire.MethodTable

/-- The list of methods, the map from signatures to positions, and the three look-ups say the same.
A position is the natural number of the same value as an index, so a negative index has none. -/
structure Coherent (t : MethodTable) : Prop where
  size_le_capacity : t.size ≤ capacity
  /-- No two methods go by the same names on the wire. -/
  signatures_nodup : (t.methods.toList.map Method.signature).Nodup
  /-- The map has as many entries as there are methods. -/
  size_positions : t.positions.size = t.size
  /-- Every entry of the map is the position of the one method with that signature. -/
  positions_iff : ∀ s i, t.positions[s]? = some i ↔
    ∃ m : Method, t.methods[i]? = some m ∧ m.signature = s
  index?_iff : ∀ m index, t.index? m = some index ↔
    ∃ i : Nat, index.toInt = i ∧ t.methods[i]? = some m
  get?_iff : ∀ index m, t.get? index = some m ↔
    ∃ i : Nat, index.toInt = i ∧ t.methods[i]? = some m
  get?_none_iff : ∀ index, t.get? index = none ↔ index.toInt < 0 ∨ t.size ≤ index.toInt
  bySignature_iff : ∀ interface name types m, t.bySignature interface name types = some m ↔
    ∃ i : Nat, t.methods[i]? = some m ∧ m.signature = ⟨lastSegment interface, name, types⟩
  bySignature_none_iff : ∀ interface name types, t.bySignature interface name types = none ↔
    ∀ (i : Nat) (m : Method), t.methods[i]? = some m →
      m.signature ≠ ⟨lastSegment interface, name, types⟩

variable {t : MethodTable}

/-! ### Methods and signatures -/

/-- The map grows with the list. -/
theorem size_positions_insert (h : t.positions.size = t.methods.size) (m : Method) :
    (t.insert m).2.positions.size = (t.insert m).2.methods.size := by
  rcases t.insert_cases m with ⟨_, _, _, he⟩ | ⟨_, _, _, he⟩ | ⟨hnew, _, he⟩ | ⟨_, _, he⟩
  · rwa [he]
  · rwa [he]
  · have hmem : m.signature ∉ t.positions := by
      simp [← Std.HashMap.isSome_getElem?_iff_mem, hnew]
    rw [he, Std.HashMap.size_insert, if_neg hmem, Array.size_push, h]
  · rwa [he]

theorem size_positions_insertAll (h : t.positions.size = t.methods.size) (methods : List Method) :
    (t.insertAll methods).positions.size = (t.insertAll methods).methods.size := by
  induction methods generalizing t with
  | nil => exact h
  | cons m methods ih => exact ih (size_positions_insert h m)

/-- A signature has one position, so only one method has it. -/
theorem signatures_nodup (ht : t.Valid) : (t.methods.toList.map Method.signature).Nodup := by
  rw [List.Nodup, List.pairwise_iff_getElem]
  intro i j hi hj hlt
  rw [List.length_map, Array.length_toList] at hi hj
  rw [List.getElem_map, List.getElem_map, Array.getElem_toList, Array.getElem_toList]
  intro heq
  have position : ∀ k, (hk : k < t.methods.size) →
      t.positions[t.methods[k].signature]? = some k := fun k hk =>
    (ht.position_iff _ k).2 ⟨_, Array.getElem?_eq_getElem hk, rfl⟩
  have h := position i hi
  rw [heq, position j hj] at h
  exact Nat.ne_of_lt hlt (Option.some.inj h).symm

/-! ### Look-ups -/

theorem get?_eq_some_iff {index : Int16} {m : Method} :
    t.get? index = some m ↔ ∃ i : Nat, index.toInt = i ∧ t.methods[i]? = some m := by
  rw [get?]
  split
  next hneg =>
    rw [Int16.lt_iff_toInt_lt] at hneg
    constructor
    · intro h
      cases h
    · intro h
      obtain ⟨i, hi, _⟩ := h
      rw [hi] at hneg
      exact absurd hneg (Int.not_lt.2 (Int.natCast_nonneg i))
  next hnonneg =>
    rw [Int16.lt_iff_toInt_lt, Int.not_lt] at hnonneg
    obtain ⟨i, hi⟩ := Int.eq_ofNat_of_zero_le hnonneg
    rw [hi, Int.toNat_natCast]
    constructor
    · intro h
      exact ⟨i, rfl, h⟩
    · intro h
      obtain ⟨j, hj, h⟩ := h
      rwa [Int.ofNat_inj.1 hj]

theorem get?_eq_none_iff {index : Int16} :
    t.get? index = none ↔ index.toInt < 0 ∨ t.size ≤ index.toInt := by
  rw [Option.eq_none_iff_forall_ne_some]
  constructor
  · intro h
    rcases Int.lt_or_le index.toInt 0 with hneg | hnonneg
    · exact .inl hneg
    · obtain ⟨i, hi⟩ := Int.eq_ofNat_of_zero_le hnonneg
      refine .inr (Int.not_lt.1 fun hlt => ?_)
      rw [hi, Int.ofNat_lt] at hlt
      exact h t.methods[i] (get?_eq_some_iff.2 ⟨i, hi, Array.getElem?_eq_getElem hlt⟩)
  · intro h m hm
    obtain ⟨i, hi, hm⟩ := get?_eq_some_iff.1 hm
    have hlt : i < t.size := (Array.getElem?_eq_some_iff.1 hm).1
    omega

/-- The index that is told is the position of the method. -/
theorem index?_eq_some_iff_position (ht : t.Valid) {m : Method} {index : Int16} :
    t.index? m = some index ↔ ∃ i : Nat, index.toInt = i ∧ t.methods[i]? = some m := by
  rw [index?_eq_some_iff ht]
  constructor
  · intro h
    obtain ⟨i, hm, hi, rfl⟩ := h
    exact ⟨i, Int16.toInt_ofNat_of_lt hi, hm⟩
  · intro h
    obtain ⟨i, hi, hm⟩ := h
    have hlt : i < t.size := (Array.getElem?_eq_some_iff.1 hm).1
    have hcap : i < capacity := Nat.lt_of_lt_of_le hlt ht.size_le
    refine ⟨i, hm, hcap, Int16.toInt_inj.1 ?_⟩
    rw [hi, Int16.toInt_ofNat_of_lt hcap]

theorem bySignature_eq_some_iff (ht : t.Valid) {interface name : String} {types : List String}
    {m : Method} : t.bySignature interface name types = some m ↔
      ∃ i : Nat, t.methods[i]? = some m ∧ m.signature = .of interface name types := by
  rw [bySignature]
  constructor
  · intro h
    split at h
    next i hp =>
      obtain ⟨m', hm', hs⟩ := (ht.position_iff _ i).1 hp
      obtain rfl := Option.some.inj (hm'.symm.trans h)
      exact ⟨i, h, hs⟩
    next => cases h
  · intro h
    obtain ⟨i, hm, hs⟩ := h
    rw [(ht.position_iff _ i).2 ⟨m, hm, hs⟩]
    exact hm

/-- **The look-ups agree.** In every table that insertions lead to, be they accepted or refused, the
methods, the map and the three look-ups fit together. -/
theorem coherent_insertAll (inserted : List Method) : (empty.insertAll inserted).Coherent := by
  have ht := valid_insertAll valid_empty inserted
  exact {
    size_le_capacity := ht.size_le
    signatures_nodup := signatures_nodup ht
    size_positions := size_positions_insertAll rfl inserted
    positions_iff := ht.position_iff
    index?_iff := fun _ _ => index?_eq_some_iff_position ht
    get?_iff := fun _ _ => get?_eq_some_iff
    get?_none_iff := fun _ => get?_eq_none_iff
    bySignature_iff := fun _ _ _ _ => bySignature_eq_some_iff ht
    bySignature_none_iff := by
      intro interface name types
      rw [Option.eq_none_iff_forall_ne_some]
      constructor
      · intro h i m hm hs
        exact h m ((bySignature_eq_some_iff ht).2 ⟨i, hm, hs⟩)
      · intro h m hm
        obtain ⟨i, hm, hs⟩ := (bySignature_eq_some_iff ht).1 hm
        exact h i m hm hs }

end CommandWire.MethodTable
