import CommandWire.Codec.Ordinal
import CommandWire.Proofs.Codec.Primitive

/-!
# Ordinals are read back

The width of an ordinal leaves room for a sign, so an ordinal is never read as a negative number,
and the variant at its position is the one it was written for (`Codec.ordinal_carries`). Bytes of
the width that name no variant are an error with the signed number they stand for
(`Ordinal.ofOrdinal_cases`). If no variant is listed twice, the bytes that name one are those it is
written as (`Ordinal.toBytes_of_ofBytes`).
-/

namespace CommandWire

/-- The variants are listed at their ordinals, and there are no more of them than four bytes can
tell apart. -/
class LawfulOrdinal (α : Type) [Ordinal α] : Prop where
  variants_ordinal : ∀ a : α, (Ordinal.variants : Array α)[Ordinal.ordinal a]? = some a
  size_le : (Ordinal.variants : Array α).size ≤ 0x80000000

/-- Moreover no variant is listed anywhere else. -/
class ExactOrdinal (α : Type) [Ordinal α] : Prop extends LawfulOrdinal α where
  ordinal_eq : ∀ (i : Nat) (a : α), (Ordinal.variants : Array α)[i]? = some a →
    Ordinal.ordinal a = i

namespace Ordinal

variable {α : Type} [Ordinal α]

/-- All ordinals of a type fit its width, and are not negative. -/
theorem lt_bound_of_lt_size (hsize : (variants : Array α).size ≤ 0x80000000) {n : Nat}
    (h : n < (variants : Array α).size) : 2 * n < Bytes.bound (width α).bytes := by
  rw [width, OrdinalWidth.ofCount]
  split
  next =>
    have : Bytes.bound OrdinalWidth.one.bytes = 256 := rfl
    omega
  next =>
    split
    next =>
      have : Bytes.bound OrdinalWidth.two.bytes = 65536 := rfl
      omega
    next =>
      have : Bytes.bound OrdinalWidth.four.bytes = 0x100000000 := rfl
      omega

theorem length_toBytes (a : α) : (toBytes a).length = (width α).bytes :=
  Bytes.length_bigEndian _ _

/-- A number is the position of a variant, or it lies outside the list and is refused. -/
theorem ofOrdinal_cases (n : Int) :
    (∃ (i : Nat) (a : α), n = i ∧ (variants : Array α)[i]? = some a ∧ ofOrdinal n = .ok a) ∨
    ((n < 0 ∨ (variants : Array α).size ≤ n) ∧
      ofOrdinal (α := α) n = .error (.corruptOrdinal (name α) n (variants : Array α).size)) := by
  rw [ofOrdinal]
  by_cases hneg : n < 0
  · rw [if_pos hneg]
    exact .inr ⟨.inl hneg, rfl⟩
  · obtain ⟨i, rfl⟩ := Int.eq_ofNat_of_zero_le (Int.not_lt.1 hneg)
    rw [if_neg hneg, Int.toNat_natCast]
    cases hi : (variants : Array α)[i]? with
    | some a => exact .inl ⟨i, a, rfl, hi, rfl⟩
    | none =>
      have hsize : (variants : Array α).size ≤ i := Array.getElem?_eq_none_iff.1 hi
      exact .inr ⟨.inr (Int.ofNat_le.2 hsize), rfl⟩

/-- One byte stands for the signed number with the same bits. -/
theorem ofBytes_singleton (b : UInt8) : ofBytes [b] = b.toInt8.toInt := by
  have hb : Bytes.ofBigEndian [b] = b.toNat := Nat.add_zero b.toNat
  rw [ofBytes, hb, Int8.toInt, UInt8.toBitVec_toInt8, BitVec.toInt_eq_toNat_cond]
  rfl

/-- Bytes of the width that name the variant at a position are those that it is written as. -/
theorem toBytes_of_ofBytes [ExactOrdinal α] {bytes : Bytes} (h : bytes.length = (width α).bytes)
    {i : Nat} {a : α} (hbytes : ofBytes bytes = i) (ha : (variants : Array α)[i]? = some a) :
    toBytes a = bytes := by
  have hi : Bytes.ofBigEndian bytes = i := by
    -- The upper half of the residues stands for negative numbers.
    have hlt := Bytes.ofBigEndian_lt bytes
    rw [ofBytes, Bytes.ofResidue] at hbytes
    split at hbytes <;> omega
  rw [toBytes, ExactOrdinal.ordinal_eq i a ha, ← h, ← hi, Bytes.bigEndian_ofBigEndian]

variable [LawfulOrdinal α]

theorem ordinal_lt_size (a : α) : ordinal a < (variants : Array α).size :=
  (Array.getElem?_eq_some_iff.1 (LawfulOrdinal.variants_ordinal a)).1

theorem ofBytes_toBytes (a : α) : ofBytes (toBytes a) = ordinal a := by
  have hlt := lt_bound_of_lt_size LawfulOrdinal.size_le (ordinal_lt_size a)
  rw [ofBytes, length_toBytes, toBytes, Bytes.ofBigEndian_bigEndian (by omega), Bytes.ofResidue,
    if_pos hlt]

theorem ofOrdinal_ordinal (a : α) : ofOrdinal (ordinal a : Int) = .ok a := by
  rw [ofOrdinal, if_neg (Int.not_lt.2 (Int.natCast_nonneg _)), Int.toNat_natCast,
    LawfulOrdinal.variants_ordinal]

end Ordinal

theorem Codec.ordinal_carries {α : Type} [Ordinal α] [LawfulOrdinal α] (a : α) :
    (Codec.ordinal α).Carries a (Ordinal.toBytes a) a :=
  ofWidth_carries (Ordinal.length_toBytes a) (by
    rw [Ordinal.ofBytes_toBytes, Ordinal.ofOrdinal_ordinal]
    rfl)

end CommandWire
