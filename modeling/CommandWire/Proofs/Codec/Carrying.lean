import CommandWire.Codec.Erased

/-!
# What codecs carry

A codec carries a value in some bytes to another value, most often the same, if it encodes the one
as these bytes and decodes the bytes to the other (`Codec.Carries`). A codec relays if it carries
whatever it has decoded to itself (`Codec.Relays`). The bytes may have been others before, but there
are always some, because an empty block stands for a missing argument.
-/

namespace CommandWire

namespace Codec

variable {α : Type}

/-- The codec encodes a value as these bytes and decodes them to a value. -/
structure Carries (codec : Codec α) (value : α) (bytes : Bytes) (back : α) : Prop where
  encode_eq : codec.encode (some value) = .ok (some bytes)
  decode_eq : codec.decode (some bytes) = .ok (.value back)

/-- Every value is carried to itself. -/
def IsFaithful (codec : Codec α) : Prop := ∀ value, ∃ bytes, codec.Carries value bytes value

/-- What has been decoded is encoded again, not as nothing, and is carried to itself. -/
def Relays (codec : Codec α) : Prop :=
  ∀ bytes value, codec.decode (some bytes) = .ok (.value value) →
    ∃ again, again ≠ [] ∧ codec.Carries value again value

theorem relays_of_carries {codec : Codec α}
    (h : ∀ value, ∃ bytes, bytes ≠ [] ∧ codec.Carries value bytes value) : codec.Relays :=
  fun _ value _ => h value

section ofWidth

variable {name : String} {width : Nat} {toBytes : α → Bytes}
  {ofBytes : Bytes → Except CodecError (Decoded α)}

theorem ofWidth_carries {value back : α} (hlength : (toBytes value).length = width)
    (hback : ofBytes (toBytes value) = .ok (.value back)) :
    (ofWidth name width toBytes ofBytes).Carries value (toBytes value) back where
  encode_eq := rfl
  decode_eq := (if_pos hlength).trans hback

/-- A codec of fixed width relays if it carries every value. -/
theorem ofWidth_relays (hwidth : width ≠ 0)
    (h : ∀ value, (ofWidth name width toBytes ofBytes).Carries value (toBytes value) value) :
    (ofWidth name width toBytes ofBytes).Relays := by
  refine relays_of_carries fun value => ⟨toBytes value, fun hnil => ?_, h value⟩
  -- No bytes are not as many as the width, and would be skipped.
  have hskipped : (ofWidth name width toBytes ofBytes).decode (some []) = .ok .skipped :=
    if_neg hwidth.symm
  have hdecode := (h value).decode_eq
  rw [hnil, hskipped] at hdecode
  cases hdecode

end ofWidth

theorem ofBytes_carries {name : String} {toBytes : α → Except CodecError Bytes}
    {ofBytes : Bytes → Except CodecError α} {value back : α} {bytes : Bytes}
    (hbytes : toBytes value = .ok bytes) (hback : ofBytes bytes = .ok back) :
    (Codec.ofBytes name toBytes ofBytes).Carries value bytes back where
  encode_eq := congrArg (Except.map some) hbytes
  decode_eq := congrArg (Except.map Decoded.value) hback

end Codec

/-! ### Values that carry their type -/

/-- The same for a codec without a type. -/
def AnyCodec.Relays (codec : AnyCodec) : Prop :=
  ∀ bytes value, codec.decode (some bytes) = .ok (.value value) →
    ∃ again, again ≠ [] ∧ codec.encode (some value) = .ok (some again) ∧
      codec.decode (some again) = .ok (.value value)

namespace Codec

variable {α : Type} [Carriable α]

/-- Values of the right type are encoded as the typed codec does. -/
theorem encode_erased_of (codec : Codec α) (value : α) :
    codec.erased.encode (some (.of value)) = codec.encode (some value) := by
  rw [Codec.erased]
  dsimp only
  rw [AnyValue.as?_of]

theorem decode_erased_of_eq_ok {codec : Codec α} {bytes : Option Bytes} {value : α}
    (h : codec.decode bytes = .ok (.value value)) :
    codec.erased.decode bytes = .ok (.value (.of value)) := by
  show (codec.decode bytes).map _ = _
  rw [h]
  rfl

theorem exists_of_decode_erased {codec : Codec α} {bytes : Option Bytes} {any : AnyValue}
    (h : codec.erased.decode bytes = .ok (.value any)) :
    ∃ value, any = .of value ∧ codec.decode bytes = .ok (.value value) := by
  replace h : (codec.decode bytes).map (·.map AnyValue.of) = .ok (.value any) := h
  cases hd : codec.decode bytes with
  | error failure =>
    rw [hd] at h
    cases h
  | ok decoded =>
    rw [hd] at h
    cases decoded <;> cases h
    exact ⟨_, rfl, rfl⟩

theorem Relays.erased {codec : Codec α} (h : codec.Relays) : codec.erased.Relays := by
  intro bytes any hdecode
  obtain ⟨value, rfl, hvalue⟩ := exists_of_decode_erased hdecode
  obtain ⟨again, hsome, hencode, hagain⟩ := h bytes value hvalue
  exact ⟨again, hsome, (codec.encode_erased_of value).trans hencode, decode_erased_of_eq_ok hagain⟩

end Codec

end CommandWire
