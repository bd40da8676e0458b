import CommandWire.Proofs.Codec.Fallback
import CommandWire.Proofs.Json.FaithfulShape

/-!
# The fallback codec on faithful shapes

Where the shape of a type is faithful, it is the text of a value alone that decides what becomes of
it: if the text nests no deeper than a reader can go, the codec carries the value to itself, and
otherwise it refuses to encode it (`fallback_carries_faithful`). No text, key or number makes a
difference.
-/

namespace CommandWire

namespace Carriable

variable {α : Type} [Carriable α]

/-- The text that a value is written as. -/
def text (value : α) : Bytes := Json.write (ValueType.of α).shape (toData value)

/-- The number of brackets that are open at once in the text of a value. -/
def nesting (value : α) : Nat := Json.nesting (text value)

end Carriable

theorem eq_text_of_jsonBytes {α : Type} [Carriable α] {value : α} {bytes : Bytes}
    (h : jsonBytes value = .ok bytes) : bytes = Carriable.text value := by
  rw [jsonBytes] at h
  split at h
  next => exact (Except.ok.inj h).symm
  next => cases h

namespace Codec

/-- **The fallback codec keeps the values of faithful shapes.** A value whose text has at most 127
brackets open at once is encoded as that text and decoded from it. One whose text nests deeper is
not encoded. -/
theorem fallback_carries_faithful {α : Type} [Carriable α]
    (h : (ValueType.of α).shape.isFaithful = true) (value : α) :
    (Carriable.nesting value ≤ 127 → Carriable.text value ≠ [] ∧
      (Codec.fallback α).Carries value (Carriable.text value) value) ∧
    (127 < Carriable.nesting value → ∃ failure, (Codec.fallback α).encode (some value) =
      .error (.fallback (ValueType.of α).name .encode failure)) := by
  have hroom : Carriable.nesting value ≤ Json.depthLimit ↔
      Json.ReadsBack (ValueType.of α).shape Json.depthLimit (Carriable.toData value)
        (Carriable.toData value) :=
    Json.nesting_write_le_iff (ValueType.of α).wellNamed h (Carriable.toData value) Json.depthLimit
  constructor
  · intro hle
    obtain ⟨bytes, hsome, hencode, hdecode⟩ := ofJsonBytes_of_readsBack (hroom.1 hle)
    obtain rfl := eq_text_of_jsonBytes hencode
    exact ⟨hsome, ofBytes_carries hencode hdecode⟩
  · intro hlt
    obtain ⟨_, _, _, _, hback⟩ | ⟨failure, hfailure⟩ := jsonBytes_cases value
    · -- What is read back can only be the value, but there is no room for its text.
      rw [Json.eq_of_readsBack (ValueType.of α).wellNamed h hback] at hback
      exact absurd (hroom.2 hback) (Nat.not_le.2 hlt)
    · exact ⟨failure, congrArg (Except.map some) hfailure⟩

end Codec

theorem Nest.height_chain (n : Nat) : (Nest.chain n).height = n := by
  induction n with
  | zero => rfl
  | succ n ih => simp [Nest.chain, Nest.height, ih]

/-- A record with the largest number, a map from and to texts that must be escaped, and a list of
lists. Inside the record there is room for 126 lists, and for no more. -/
theorem Codec.fallback_carries_faithful_record :
    let type : ValueType :=
      { name := "Order"
        shape := .record (.cons "amount" (.integer .u64)
          (.cons "notes" (.map .text) (.cons "parts" .nest .nil))) }
    let _ := type.carriable
    let order (lists : Nat) : type.Data :=
      (⟨0xffffffffffffffff, by decide⟩, SortedMap.empty.insert "\"\\\n" "\u0001☃𝄞",
        Nest.chain lists, ())
    (Codec.fallback type.Data).Carries (order 125) (Carriable.text (order 125)) (order 125) ∧
    ∃ failure, (Codec.fallback type.Data).encode (some (order 126)) =
      .error (.fallback "Order" .encode failure) := by
  intro type _ order
  have hshape : (ValueType.of type.Data).shape.isFaithful = true := by decide
  have hroom : ∀ lists room,
      Carriable.nesting (order lists) ≤ room + 2 ↔ lists ≤ room := by
    intro lists room
    refine (Json.nesting_write_le_iff type.wellNamed hshape (order lists) (room + 2)).trans ?_
    constructor
    · rintro ⟨d, hd, -, -, -, ⟨hheight, -⟩, -⟩
      have : (Nest.chain lists).height < d := hheight
      rw [Nest.height_chain] at this
      omega
    · intro hle
      have hheight : (Nest.chain lists).height < room + 1 := by
        rw [Nest.height_chain]
        omega
      exact ⟨room + 1, rfl, by decide, rfl, ⟨room, rfl, List.forall₂_same.2 fun _ _ => ⟨rfl, rfl⟩⟩,
        ⟨hheight, rfl⟩, trivial⟩
  exact ⟨((fallback_carries_faithful hshape (order 125)).1 ((hroom 125 125).2 (by decide))).2,
    (fallback_carries_faithful hshape (order 126)).2
      (Nat.not_le.1 fun hle => absurd ((hroom 126 125).1 hle) (by decide))⟩

end CommandWire
