import CommandWire.Proofs.Codec.Primitive

/-!
# Codecs of fixed width

A codec has a width if it writes every value in that many bytes, reads it back, and passes over the
bytes that are more or fewer, and only those (`Codec.HasWidth`). It is exact if moreover no other
bytes are read as the value, and none as a missing one (`Codec.IsExact`). Both follow for a codec
that is made by `Codec.ofWidth` from what its two translations do to bytes of the width; the codecs
of numbers and doubles are exact. That of truth values is not: of 256 bytes it writes two, and one
stands for a missing value (`bool_decode_eq_absent_iff`).
-/

namespace CommandWire.Codec

variable {α : Type}

/-- Every value is written in this number of bytes, which the codec declares, and is read back from
them; bytes of any other number are passed over, and no others. -/
structure HasWidth (codec : Codec α) (width : Nat) : Prop where
  fixedWidth_eq : codec.fixedWidth = some width
  exists_carries : ∀ value, ∃ bytes, bytes.length = width ∧ codec.Carries value bytes value
  skipped_iff : ∀ bytes, codec.decode (some bytes) = .ok .skipped ↔ bytes.length ≠ width

/-- What is read as a value is its encoding, so no two byte strings are read as the same value, and
none is read as a missing one. -/
structure IsExact (codec : Codec α) : Prop where
  encode_of_decode : ∀ bytes value, codec.decode (some bytes) = .ok (.value value) →
    codec.encode (some value) = .ok (some bytes)
  injective : ∀ bytes others value, codec.decode (some bytes) = .ok (.value value) →
    codec.decode (some others) = .ok (.value value) → bytes = others
  not_absent : ∀ bytes, codec.decode (some bytes) ≠ .ok .absent

/-- Reading is injective because writing is a function. -/
theorem IsExact.of_encode {codec : Codec α}
    (hencode : ∀ bytes value, codec.decode (some bytes) = .ok (.value value) →
      codec.encode (some value) = .ok (some bytes))
    (habsent : ∀ bytes, codec.decode (some bytes) ≠ .ok .absent) : codec.IsExact where
  encode_of_decode := hencode
  injective := by
    intro bytes others value hbytes hothers
    have h := (hencode bytes value hbytes).symm.trans (hencode others value hothers)
    cases h
    rfl
  not_absent := habsent

section ofWidth

variable {name : String} {width : Nat} {toBytes : α → Bytes}
  {ofBytes : Bytes → Except CodecError (Decoded α)}

/-- Bytes of the width are read, and all others are passed over. -/
theorem decode_ofWidth_cases (bytes : Bytes) :
    (bytes.length = width ∧
      (ofWidth name width toBytes ofBytes).decode (some bytes) = ofBytes bytes) ∨
    (bytes.length ≠ width ∧
      (ofWidth name width toBytes ofBytes).decode (some bytes) = .ok .skipped) := by
  by_cases h : bytes.length = width
  · exact .inl ⟨h, if_pos h⟩
  · exact .inr ⟨h, if_neg h⟩

theorem ofWidth_hasWidth (hlength : ∀ value, (toBytes value).length = width)
    (hcarries : ∀ value, (ofWidth name width toBytes ofBytes).Carries value (toBytes value) value)
    (hread : ∀ bytes, bytes.length = width → ofBytes bytes ≠ .ok .skipped) :
    (ofWidth name width toBytes ofBytes).HasWidth width where
  fixedWidth_eq := rfl
  exists_carries value := ⟨toBytes value, hlength value, hcarries value⟩
  skipped_iff bytes := by
    obtain ⟨h, hdecode⟩ | ⟨h, hdecode⟩ := decode_ofWidth_cases bytes
    · rw [hdecode]
      exact iff_of_false (hread bytes h) (not_not_intro h)
    · exact iff_of_true hdecode h

theorem ofWidth_isExact
    (hwrite : ∀ bytes value, bytes.length = width → ofBytes bytes = .ok (.value value) →
      toBytes value = bytes)
    (hread : ∀ bytes, bytes.length = width → ofBytes bytes ≠ .ok .absent) :
    (ofWidth name width toBytes ofBytes).IsExact := by
  apply IsExact.of_encode
  · intro bytes value hvalue
    obtain ⟨h, hdecode⟩ | ⟨_, hdecode⟩ := decode_ofWidth_cases bytes
    · rw [hdecode] at hvalue
      exact congrArg (fun bytes => Except.ok (some bytes)) (hwrite bytes value h hvalue)
    · cases hdecode.symm.trans hvalue
  · intro bytes habsent
    obtain ⟨h, hdecode⟩ | ⟨_, hdecode⟩ := decode_ofWidth_cases bytes
    · rw [hdecode] at habsent
      exact hread bytes h habsent
    · cases hdecode.symm.trans habsent

/-- If all bytes of the width are read as a value, it is enough that the value is written as
them. -/
theorem ofWidth_isExact_of_value {value : Bytes → α}
    (hwrite : ∀ bytes : Bytes, bytes.length = width → toBytes (value bytes) = bytes) :
    (ofWidth name width toBytes fun bytes => .ok (.value (value bytes))).IsExact := by
  refine ofWidth_isExact ?_ nofun
  intro bytes a h hvalue
  cases hvalue
  exact hwrite bytes h

end ofWidth

/-! ### Truth values -/

theorem bool_hasWidth : bool.HasWidth 1 := by
  refine ofWidth_hasWidth (fun _ => rfl) bool_carries ?_
  intro bytes _ hskipped
  rw [ofBoolBytes] at hskipped
  split at hskipped <;> cases hskipped

/-- Only one byte stands for a missing truth value. -/
theorem bool_decode_eq_absent_iff (bytes : Bytes) :
    bool.decode (some bytes) = .ok .absent ↔ bytes = [missingBool] := by
  constructor
  · intro habsent
    obtain ⟨_, hdecode⟩ | ⟨_, hdecode⟩ := decode_ofWidth_cases bytes
    · rw [bool, hdecode, ofBoolBytes] at habsent
      split at habsent
      next h => exact h
      next => cases habsent
    · rw [bool, hdecode] at habsent
      cases habsent
  · rintro rfl
    rfl

/-- This byte is never written. -/
theorem bool_encode_ne_missing (value? : Option Bool) :
    bool.encode value? ≠ .ok (some [missingBool]) := by
  intro h
  have hbytes : value?.map boolBytes = some [missingBool] := Except.ok.inj h
  cases value? with
  | none => cases hbytes
  | some value =>
    revert hbytes
    cases value <;> decide

/-! ### Numbers -/

theorem short_hasWidth : short.HasWidth 2 := ofWidth_hasWidth length_shortBytes short_carries nofun

theorem short_isExact : short.IsExact :=
  ofWidth_isExact_of_value fun _ => shortBytes_ofShortBytes

theorem int_hasWidth : int.HasWidth 4 := ofWidth_hasWidth length_intBytes int_carries nofun

theorem int_isExact : int.IsExact := ofWidth_isExact_of_value fun _ => intBytes_ofIntBytes

theorem long_hasWidth : long.HasWidth 8 := ofWidth_hasWidth length_longBytes long_carries nofun

theorem long_isExact : long.IsExact := ofWidth_isExact_of_value fun _ => longBytes_ofLongBytes

theorem double_hasWidth : double.HasWidth 8 :=
  ofWidth_hasWidth length_doubleBytes double_carries nofun

theorem double_isExact : double.IsExact :=
  ofWidth_isExact_of_value fun _ => doubleBytes_ofDoubleBytes

end CommandWire.Codec
