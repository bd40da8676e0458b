import CommandWire.Proofs.Codec.FixedWidth
import CommandWire.Proofs.Codec.Ordinal

/-!
# Ordinals of every width are exact

However many variants a type lists, the width of its ordinals has room for all of them on the
positive side. So bytes of the width are read as the variant at the position that they stand for, as
a signed number, and if there is none they are refused with that number; they are never passed over
and never stand for a missing value (`ordinal_exact`).
-/

namespace CommandWire

namespace Ordinal

variable {α : Type} [Ordinal α]

/-- The number of a variant is its position. -/
theorem ofOrdinal_of_lt {i : Nat} (h : i < (variants : Array α).size) :
    ofOrdinal (α := α) i = .ok (variants : Array α)[i] := by
  rw [ofOrdinal, if_neg (Int.not_lt.2 (Int.natCast_nonneg i)), Int.toNat_natCast,
    Array.getElem?_eq_getElem h]

/-- The number of no variant is refused. -/
theorem ofOrdinal_of_outside {n : Int} (h : n < 0 ∨ (variants : Array α).size ≤ n) :
    ofOrdinal (α := α) n = .error (.corruptOrdinal (name α) n (variants : Array α).size) := by
  obtain ⟨i, a, rfl, ha, _⟩ | ⟨_, herror⟩ := ofOrdinal_cases (α := α) n
  · have hi : i < (variants : Array α).size := (Array.getElem?_eq_some_iff.1 ha).1
    omega
  · exact herror

/-- A number gives a variant or an error, so never anything else. -/
theorem map_ofOrdinal_ne {n : Int} {decoded : Decoded α} (h : ∀ a, .value a ≠ decoded) :
    (ofOrdinal n).map Decoded.value ≠ .ok decoded := by
  intro hdecoded
  cases hn : ofOrdinal (α := α) n with
  | error failure =>
    rw [hn] at hdecoded
    cases hdecoded
  | ok a =>
    rw [hn] at hdecoded
    exact h a (Except.ok.inj hdecoded)

theorem toBytes_injective [LawfulOrdinal α] {a b : α} (h : toBytes a = toBytes b) : a = b := by
  have hordinal := ofOrdinal_ordinal a
  rw [← ofBytes_toBytes, h, ofBytes_toBytes, ofOrdinal_ordinal] at hordinal
  exact (Except.ok.inj hordinal).symm

end Ordinal

namespace Codec

section Ordinal

variable {α : Type} [Ordinal α]

theorem ordinal_decode_of_length {bytes : Bytes} (h : bytes.length = (Ordinal.width α).bytes) :
    (ordinal α).decode (some bytes) =
      (Ordinal.ofOrdinal (Ordinal.ofBytes bytes)).map .value :=
  if_pos h

theorem ordinal_hasWidth [LawfulOrdinal α] : (ordinal α).HasWidth (Ordinal.width α).bytes :=
  ofWidth_hasWidth Ordinal.length_toBytes ordinal_carries fun _ _ => Ordinal.map_ofOrdinal_ne nofun

theorem ordinal_isExact [ExactOrdinal α] : (ordinal α).IsExact := by
  apply ofWidth_isExact
  · intro bytes a h hvalue
    obtain ⟨i, b, hi, hb, hok⟩ | ⟨_, herror⟩ := Ordinal.ofOrdinal_cases (α := α)
      (Ordinal.ofBytes bytes)
    · rw [hok] at hvalue
      cases hvalue
      exact Ordinal.toBytes_of_ofBytes h hi hb
    · rw [herror] at hvalue
      cases hvalue
  · exact fun _ _ => Ordinal.map_ofOrdinal_ne nofun

end Ordinal

/-- **Ordinals survive every width.** If the variants of a type are listed at their ordinals, up to
2³¹ of them, then every variant is written in the width of the type and read back, and no two are
written alike. Bytes of the width are read as the variant at the position they stand for, as a
signed number, and are refused if there is none; those that are read as a variant are the ones it is
written as. -/
theorem ordinal_exact (α : Type) [Ordinal α] [ExactOrdinal α] :
    (ordinal α).HasWidth (Ordinal.width α).bytes ∧
    (ordinal α).IsExact ∧
    (∀ a b : α, (ordinal α).encode (some a) = (ordinal α).encode (some b) → a = b) ∧
    (∀ a : α, ∃ bytes, (ordinal α).encode (some a) = .ok (some bytes) ∧
      Ordinal.ofBytes bytes = Ordinal.ordinal a) ∧
    ∀ bytes : Bytes, bytes.length = (Ordinal.width α).bytes →
      (∀ (i : Nat) (h : i < (Ordinal.variants : Array α).size), Ordinal.ofBytes bytes = i →
        (ordinal α).decode (some bytes) = .ok (.value (Ordinal.variants : Array α)[i])) ∧
      (Ordinal.ofBytes bytes < 0 ∨ (Ordinal.variants : Array α).size ≤ Ordinal.ofBytes bytes →
        (ordinal α).decode (some bytes) = .error (.corruptOrdinal (Ordinal.name α)
          (Ordinal.ofBytes bytes) (Ordinal.variants : Array α).size)) := by
  refine ⟨ordinal_hasWidth, ordinal_isExact, ?_, ?_, ?_⟩
  · intro a b h
    exact Ordinal.toBytes_injective (Option.some.inj (Except.ok.inj h))
  · intro a
    exact ⟨_, rfl, Ordinal.ofBytes_toBytes a⟩
  · intro bytes hlength
    rw [ordinal_decode_of_length hlength]
    constructor
    · intro i h hi
      rw [hi, Ordinal.ofOrdinal_of_lt h]
      rfl
    · intro h
      rw [Ordinal.ofOrdinal_of_outside h]
      rfl

end Codec

/-! ### Numbers as variants -/

/-- The numbers below a bound, listed in their order. -/
abbrev Ordinal.fin (n : Nat) : Ordinal (Fin n) where
  name := "Fin"
  variants := Array.ofFn id
  ordinal := Fin.val

theorem Ordinal.exactOrdinal_fin {n : Nat} (h : n ≤ 0x80000000) :
    @ExactOrdinal (Fin n) (Ordinal.fin n) := by
  let _ := Ordinal.fin n
  exact {
    variants_ordinal := fun a => by simp [variants, ordinal]
    size_le := by simpa [variants] using h
    ordinal_eq := fun i a ha => by
      obtain ⟨hi, rfl⟩ := Array.getElem?_eq_some_iff.1 ha
      simp [variants, ordinal] }

theorem Ordinal.getElem_variants_fin {n i : Nat} (h : i < n)
    (hi : i < (@Ordinal.variants (Fin n) (Ordinal.fin n)).size) :
    (@Ordinal.variants (Fin n) (Ordinal.fin n))[i] = ⟨i, h⟩ :=
  Array.getElem_ofFn hi

/-- With 32768 variants the ordinals no longer fit two bytes. The last one is read back, and the
number after it is refused, as is the number before the first one. -/
theorem ordinal_exact_fin :
    let _ := Ordinal.fin 0x8000
    (Codec.ordinal (Fin 0x8000)).decode (some [0x00, 0x00, 0x7F, 0xFF]) = .ok (.value 0x7FFF) ∧
    (Codec.ordinal (Fin 0x8000)).decode (some [0x00, 0x00, 0x80, 0x00]) =
      .error (.corruptOrdinal "Fin" 0x8000 0x8000) ∧
    (Codec.ordinal (Fin 0x8000)).decode (some [0xFF, 0xFF, 0xFF, 0xFF]) =
      .error (.corruptOrdinal "Fin" (-1) 0x8000) := by
  let _ := Ordinal.fin 0x8000
  have := Ordinal.exactOrdinal_fin (n := 0x8000) (by decide)
  have hsize : (Ordinal.variants : Array (Fin 0x8000)).size = 0x8000 := Array.size_ofFn
  have hwidth : (Ordinal.width (Fin 0x8000)).bytes = 4 := by rw [Ordinal.width, hsize]; rfl
  obtain ⟨_, _, _, _, hread⟩ := Codec.ordinal_exact (Fin 0x8000)
  rw [hwidth] at hread
  have hrefused : ∀ bytes : Bytes, bytes.length = 4 →
      Ordinal.ofBytes bytes < 0 ∨ 0x8000 ≤ Ordinal.ofBytes bytes →
      (Codec.ordinal (Fin 0x8000)).decode (some bytes) =
        .error (.corruptOrdinal "Fin" (Ordinal.ofBytes bytes) 0x8000) := by
    intro bytes hlength houtside
    have herror := (hread bytes hlength).2
    rw [hsize] at herror
    exact herror houtside
  refine ⟨?_, ?_, ?_⟩
  · rw [(hread [0x00, 0x00, 0x7F, 0xFF] rfl).1 0x7FFF (by rw [hsize]; decide) (by decide)]
    rw [Ordinal.getElem_variants_fin (by decide)]
    rfl
  · exact hrefused [0x00, 0x00, 0x80, 0x00] rfl (.inr (by decide))
  · exact hrefused [0xFF, 0xFF, 0xFF, 0xFF] rfl (.inl (by decide))

end CommandWire
