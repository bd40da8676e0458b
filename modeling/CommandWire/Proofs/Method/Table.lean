import CommandWire.Method.Table
import CommandWire.Proofs.Method.Name

/-!
# What a method table knows

The list of methods and the map from signatures to positions say the same: the map sends a signature
to a position if and only if the method there has it (`MethodTable.Valid`). Every table that is made
by insertions is like that (`valid_insertAll`), whether the insertions succeed or not.

From it follows what the two ends of a wire rely on: an indexed method is found by its index, and
also by what is written of its names (`get?_of_index?`, `bySignature_of_index?`).
-/

namespace CommandWire

namespace MethodTable

/-- The table after some methods have been inserted in order; those that are refused leave it as it
is. -/
def insertAll (t : MethodTable) (methods : List Method) : MethodTable :=
  methods.foldl (fun t m => (t.insert m).2) t

/-- The methods and their positions fit together. -/
structure Valid (t : MethodTable) : Prop where
  size_le : t.methods.size ≤ capacity
  position_iff : ∀ s i, t.positions[s]? = some i ↔
    ∃ m : Method, t.methods[i]? = some m ∧ m.signature = s

theorem valid_empty : empty.Valid where
  size_le := Nat.zero_le _
  position_iff s i := by simp [empty]

/-- What an insertion can do: find the method, refuse another one of the same signature, append the
method, or refuse it for want of room. -/
theorem insert_cases (t : MethodTable) (m : Method) :
    (∃ i, t.positions[m.signature]? = some i ∧ t.methods[i]? = some m ∧
      t.insert m = (.ok (.ofNat i), t)) ∨
    (∃ i, t.positions[m.signature]? = some i ∧ t.methods[i]? ≠ some m ∧
      t.insert m = (.error (.invalidConfig
        (m.text ++ " collides with an already indexed method of the same wire signature")), t)) ∨
    (t.positions[m.signature]? = none ∧ t.methods.size < capacity ∧
      t.insert m = (.ok (.ofNat t.methods.size),
        ⟨t.methods.push m, t.positions.insert m.signature t.methods.size⟩)) ∨
    (t.positions[m.signature]? = none ∧ capacity ≤ t.methods.size ∧
      t.insert m =
        (.error (.invalidConfig ("method table is full, cannot index " ++ m.text)), t)) := by
  rw [insert]
  cases hp : t.positions[m.signature]? with
  | some i =>
    by_cases hm : t.methods[i]? = some m
    · exact .inl ⟨i, rfl, hm, if_pos hm⟩
    · exact .inr (.inl ⟨i, rfl, hm, if_neg hm⟩)
  | none =>
    by_cases hc : t.methods.size < capacity
    · exact .inr (.inr (.inl ⟨rfl, hc, if_pos hc⟩))
    · exact .inr (.inr (.inr ⟨rfl, Nat.le_of_not_lt hc, if_neg hc⟩))

/-- Appending a method of a new signature keeps the table valid. -/
theorem Valid.push {t : MethodTable} (ht : t.Valid) {m : Method}
    (hnew : t.positions[m.signature]? = none) (hroom : t.methods.size < capacity) :
    Valid ⟨t.methods.push m, t.positions.insert m.signature t.methods.size⟩ where
  size_le := by
    rw [Array.size_push]
    exact hroom
  position_iff s i := by
    rw [Std.HashMap.getElem?_insert, Array.getElem?_push]
    by_cases hs : m.signature = s
    · subst hs
      rw [if_pos BEq.rfl, Option.some.injEq, eq_comm]
      constructor
      · intro h
        subst h
        exact ⟨m, if_pos rfl, rfl⟩
      · intro h
        obtain ⟨m', hm', hs'⟩ := h
        by_cases hi : i = t.methods.size
        · exact hi
        · -- A former method of this signature would have a position in the map.
          rw [if_neg hi] at hm'
          have hp := (ht.position_iff m.signature i).2 ⟨m', hm', hs'⟩
          rw [hnew] at hp
          cases hp
    · rw [if_neg (by simpa using hs), ht.position_iff]
      constructor
      · intro h
        obtain ⟨m', hm', hs'⟩ := h
        have hi : i < t.methods.size := (Array.getElem?_eq_some_iff.1 hm').1
        exact ⟨m', by rwa [if_neg (Nat.ne_of_lt hi)], hs'⟩
      · intro h
        obtain ⟨m', hm', hs'⟩ := h
        split at hm'
        · cases hm'
          exact absurd hs' hs
        · exact ⟨m', hm', hs'⟩

theorem valid_insert {t : MethodTable} (ht : t.Valid) (m : Method) : (t.insert m).2.Valid := by
  rcases t.insert_cases m with ⟨_, _, _, h⟩ | ⟨_, _, _, h⟩ | ⟨hnew, hroom, h⟩ | ⟨_, _, h⟩
  · rwa [h]
  · rwa [h]
  · rw [h]
    exact ht.push hnew hroom
  · rwa [h]

theorem valid_insertAll {t : MethodTable} (ht : t.Valid) (methods : List Method) :
    (t.insertAll methods).Valid := by
  induction methods generalizing t with
  | nil => exact ht
  | cons m methods ih => exact ih (valid_insert ht m)

/-! ### Looking up what is indexed -/

/-- A method has an index if and only if it stands at its position. -/
theorem index?_eq_some_iff {t : MethodTable} (ht : t.Valid) {m : Method} {index : Int16} :
    t.index? m = some index ↔
      ∃ i, t.methods[i]? = some m ∧ i < capacity ∧ index = .ofNat i := by
  rw [index?]
  constructor
  · intro h
    split at h
    next i hp =>
      split at h
      next hm =>
        have hi : i < t.methods.size := (Array.getElem?_eq_some_iff.1 hm).1
        exact ⟨i, hm, Nat.lt_of_lt_of_le hi ht.size_le, (Option.some.inj h).symm⟩
      next => cases h
    next => cases h
  · intro h
    obtain ⟨i, hm, _, rfl⟩ := h
    rw [(ht.position_iff m.signature i).2 ⟨m, hm, rfl⟩]
    exact if_pos hm

/-- An index below the capacity is the position it was made of. -/
theorem get?_ofNat {t : MethodTable} {i : Nat} (h : i < capacity) :
    t.get? (.ofNat i) = t.methods[i]? := by
  have hi : (Int16.ofNat i).toInt = i := Int16.toInt_ofNat_of_lt h
  have hn : ¬ Int16.ofNat i < 0 := by
    rw [Int16.lt_iff_toInt_lt, hi]
    exact Int.not_lt.2 (Int.natCast_nonneg i)
  rw [get?, if_neg hn, hi, Int.toNat_natCast]

theorem get?_of_index? {t : MethodTable} (ht : t.Valid) {m : Method} {index : Int16}
    (h : t.index? m = some index) : t.get? index = some m := by
  obtain ⟨i, hm, hi, rfl⟩ := (index?_eq_some_iff ht).1 h
  rw [get?_ofNat hi, hm]

/-- What is written of a method's names finds the method, although only the simple name of its
interface is written. -/
theorem bySignature_of_index? {t : MethodTable} (ht : t.Valid) {m : Method} {index : Int16}
    (h : t.index? m = some index) : t.bySignature m.wireInterface m.name m.wireTypes = some m := by
  obtain ⟨i, hm, _, _⟩ := (index?_eq_some_iff ht).1 h
  have hs : Signature.of m.wireInterface m.name m.wireTypes = m.signature := by
    rw [Signature.of, Method.wireInterface, lastSegment_lastSegment]
    rfl
  rw [bySignature, hs, (ht.position_iff m.signature i).2 ⟨m, hm, rfl⟩]
  exact hm

end MethodTable

end CommandWire
