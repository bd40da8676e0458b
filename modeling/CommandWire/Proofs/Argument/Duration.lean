import CommandWire.Argument.Expiration

/-!
# Durations are exact

The duration of an expiration is computed in words of a machine, and yet it is what numbers of any
size would give (`Expiration.convertsExactly`). A product of 64 bits and the length of a unit is far
from filling a wide word (`TimeUnit.exists_total`), and the remainder of nanoseconds is less than a
second, so that it fits into 32 bits and nothing is carried (`Duration.ofNanos?_cases`).
-/

namespace CommandWire

namespace WideWord

theorem toNat_ofWord (n : UInt64) : (ofWord n).toNat = n.toNat := by
  rw [ofWord, BitVec.toNat_setWidth, UInt64.toNat_toBitVec]
  exact Nat.mod_eq_of_lt (Nat.lt_trans n.toNat_lt (by decide))

theorem mul_of_lt {a b : WideWord} (h : a.toNat * b.toNat < Nat.pow 2 128) :
    mul a b = .ok (a * b) ∧ (a * b).toNat = a.toNat * b.toNat := by
  refine ⟨if_neg ?_, ?_⟩
  · rw [BitVec.umulOverflow, decide_eq_true_eq]
    exact Nat.not_le_of_lt h
  · rw [BitVec.toNat_mul]
    exact Nat.mod_eq_of_lt h

theorem toWord?_cases (n : WideWord) :
    (∃ word, n.toWord? = some word ∧ word.toNat = n.toNat) ∨
      (n.toWord? = none ∧ UInt64.size ≤ n.toNat) := by
  by_cases h : n.toNat < UInt64.size
  · exact .inl ⟨_, if_pos h, UInt64.toNat_ofNat_of_lt' h⟩
  · exact .inr ⟨if_neg h, Nat.le_of_not_lt h⟩

theorem toNat_low {n : WideWord} (h : n.toNat < UInt32.size) : n.low.toNat = n.toNat := by
  rw [low, UInt32.toNat_ofBitVec, BitVec.toNat_setWidth]
  exact Nat.mod_eq_of_lt h

end WideWord

/-- The longest unit is a day, whose nanoseconds are a number of 47 bits. -/
theorem TimeUnit.exists_total (unit : TimeUnit) (count : UInt64) : ∃ total,
    unit.total count = .ok total ∧ total.toNat = count.toNat * unit.nanos.toNat := by
  have hnanos : unit.nanos.toNat ≤ 86400000000000 := by cases unit <;> decide
  have hproduct : (WideWord.ofWord count).toNat * (WideWord.ofWord unit.nanos).toNat <
      Nat.pow 2 128 := by
    rw [WideWord.toNat_ofWord, WideWord.toNat_ofWord]
    calc count.toNat * unit.nanos.toNat
        ≤ UInt64.size * 86400000000000 := Nat.mul_le_mul (Nat.le_of_lt count.toNat_lt) hnanos
      _ < Nat.pow 2 128 := by decide
  obtain ⟨hmul, htoNat⟩ := WideWord.mul_of_lt hproduct
  refine ⟨_, hmul, ?_⟩
  rw [htoNat, WideWord.toNat_ofWord, WideWord.toNat_ofWord]

namespace Duration

/-- The nanoseconds that do not make a second fit into 32 bits. -/
theorem toNat_low_remainder (total : WideWord) :
    (total % 1000000000).low.toNat = total.toNat % 1000000000 := by
  have hlt : total.toNat % 1000000000 < 1000000000 := Nat.mod_lt _ (by decide)
  have hmod : (total % 1000000000).toNat = total.toNat % 1000000000 := BitVec.toNat_umod
  rw [WideWord.toNat_low, hmod]
  rw [hmod]
  exact Nat.lt_trans hlt (by decide)

/-- Nothing is carried over from what does not make a second. -/
theorem ofParts_remainder (seconds : UInt64) (total : WideWord) : ∃ h,
    ofParts seconds (total % 1000000000).low = .ok ⟨seconds, (total % 1000000000).low, h⟩ := by
  have hlt : (total % 1000000000).low < 1000000000 := by
    rw [UInt32.lt_iff_toNat_lt, toNat_low_remainder]
    exact Nat.mod_lt _ (by decide)
  exact ⟨hlt, dif_pos hlt⟩

/-- All nanoseconds are kept, unless the seconds are too many for a word. -/
theorem ofNanos?_cases (total : WideWord) :
    (∃ d, ofNanos? total = .ok (some d) ∧
      d.seconds.toNat * 1000000000 + d.nanos.toNat = total.toNat) ∨
    (ofNanos? total = .ok none ∧ UInt64.size ≤ total.toNat / 1000000000) := by
  have hdiv : (total / 1000000000).toNat = total.toNat / 1000000000 := BitVec.toNat_udiv
  rw [ofNanos?]
  rcases (total / 1000000000).toWord?_cases with ⟨seconds, hseconds, hcount⟩ | ⟨hnone, hmany⟩
  · obtain ⟨hlt, hparts⟩ := ofParts_remainder seconds total
    refine .inl ⟨⟨seconds, _, hlt⟩, ?_, ?_⟩
    · rw [hseconds, Option.mapM_some, hparts]
      rfl
    · show seconds.toNat * 1000000000 + (total % 1000000000).low.toNat = _
      rw [hcount, hdiv, toNat_low_remainder, Nat.div_add_mod']
  · rw [hnone, ← hdiv]
    exact .inr ⟨rfl, hmany⟩

end Duration

namespace Expiration

/-- The length in nanoseconds. -/
def inNanos (e : Expiration) : Int := e.duration.toInt * e.unit.nanos.toNat

/-- The number of units is negative, or its whole seconds are more than a word can count. -/
def IsNegativeOrTooLong (e : Expiration) : Prop :=
  e.duration.toInt < 0 ∨ 0xffffffffffffffff < e.inNanos / 1000000000

theorem exists_total {e : Expiration} (h : 0 ≤ e.duration.toInt) : ∃ total,
    e.unit.total e.duration.toUInt64 = .ok total ∧ (total.toNat : Int) = e.inNanos ∧
      e.toDuration? = Duration.ofNanos? total := by
  obtain ⟨total, htotal, htoNat⟩ := e.unit.exists_total e.duration.toUInt64
  have hle : 0 ≤ e.duration := Int64.le_iff_toInt_le.2 h
  have hcount : (e.duration.toUInt64.toNat : Int) = e.duration.toInt := by
    rw [Int64.toNat_toUInt64_of_le hle, Int64.toInt_eq_toNatClampNeg hle]
  refine ⟨total, htotal, ?_, ?_⟩
  · rw [htoNat, Int.natCast_mul, hcount, inNanos]
  · rw [toDuration?, if_neg (Int64.not_lt.2 hle), htotal]
    rfl

theorem toDuration?_cases (e : Expiration) :
    (e.IsNegativeOrTooLong ∧ e.toDuration? = .ok none) ∨
    (¬ e.IsNegativeOrTooLong ∧ ∃ d, e.toDuration? = .ok (some d) ∧
      (d.seconds.toNat : Int) * 1000000000 + d.nanos.toNat = e.inNanos) := by
  rcases Int.lt_or_le e.duration.toInt 0 with hneg | hnonneg
  · exact .inl ⟨.inl hneg, if_pos (Int64.lt_iff_toInt_lt.2 hneg)⟩
  · obtain ⟨total, _, hinNanos, heq⟩ := exists_total hnonneg
    rw [heq, IsNegativeOrTooLong, ← hinNanos]
    rcases Duration.ofNanos?_cases total with ⟨d, hd, hlength⟩ | ⟨hnone, hmany⟩
    · have hseconds : d.seconds.toNat < 0x10000000000000000 := d.seconds.toNat_lt
      have hnanos : d.nanos.toNat < 1000000000 := UInt32.lt_iff_toNat_lt.1 d.nanos_lt
      refine .inr ⟨?_, d, hd, ?_⟩
      · rw [← hlength]
        omega
      · rw [← hlength]
        rfl
    · replace hmany : 0x10000000000000000 ≤ total.toNat / 1000000000 := hmany
      refine .inl ⟨.inr ?_, hnone⟩
      omega

/-- Neither the duration of an expiration nor any number on the way to it differs from what numbers
of any size would give. -/
structure ConvertsExactly (e : Expiration) : Prop where
  none_iff : e.toDuration? = .ok none ↔ e.IsNegativeOrTooLong
  /-- Where there is a duration, it has the very length. -/
  exact_of_not : ¬ e.IsNegativeOrTooLong → ∃ d, e.toDuration? = .ok (some d) ∧
    d.nanos.toNat < 1000000000 ∧
    (d.seconds.toNat : Int) * 1000000000 + d.nanos.toNat = e.inNanos
  /-- The product is a wide word, the remainder of its division is the same number in 32 bits, and
  to put it together with any seconds carries nothing over. -/
  steps : 0 ≤ e.duration.toInt → ∃ total, e.unit.total e.duration.toUInt64 = .ok total ∧
    (total.toNat : Int) = e.inNanos ∧
    (total % 1000000000).low.toNat = total.toNat % 1000000000 ∧
    ∀ seconds, ∃ h, Duration.ofParts seconds (total % 1000000000).low =
      .ok ⟨seconds, (total % 1000000000).low, h⟩

/-- **Durations are exact.** None is missing or inexact for want of bits, whatever the number and
the unit. -/
theorem convertsExactly (e : Expiration) : e.ConvertsExactly where
  none_iff := by
    rcases e.toDuration?_cases with ⟨hnothing, hnone⟩ | ⟨hsome, d, hd, _⟩
    · exact iff_of_true hnone hnothing
    · refine iff_of_false (fun hnone => ?_) hsome
      cases hd.symm.trans hnone
  exact_of_not hsome := by
    rcases e.toDuration?_cases with ⟨hnothing, _⟩ | ⟨_, d, hd, hlength⟩
    · exact absurd hnothing hsome
    · exact ⟨d, hd, UInt32.lt_iff_toNat_lt.1 d.nanos_lt, hlength⟩
  steps hnonneg := by
    obtain ⟨total, htotal, hinNanos, _⟩ := exists_total hnonneg
    exact ⟨total, htotal, hinNanos, Duration.toNat_low_remainder total,
      fun seconds => Duration.ofParts_remainder seconds total⟩

/-- The most seconds that there can be have a duration, but not as many minutes. -/
example : (⟨9223372036854775807, .minutes⟩ : Expiration).toDuration? = .ok none ∧
    (⟨9223372036854775807, .seconds⟩ : Expiration).toDuration? =
      .ok (some ⟨9223372036854775807, 0, by decide⟩) :=
  ⟨rfl, rfl⟩

end Expiration

end CommandWire
