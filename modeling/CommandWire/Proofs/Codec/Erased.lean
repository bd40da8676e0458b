import CommandWire.Proofs.Codec.Carrying

/-!
# Erasing the type of a codec

Nothing about a typed codec is lost when its type is erased: from the erased codec the typed one can
be read off again (`erased_injective`), and that for every type which stands for the same value type
(`erased_typedAs`). What erasing adds is one error, for values of another type. Where the typed codec
does not report that error itself, it means just that (`NeverMismatches.encode_erased_eq_iff`).
-/

namespace CommandWire

attribute [ext] Codec AnyCodec

/-- A value whose type has been erased is taken for one of the type again. -/
theorem Decoded.narrow_map_of {α : Type} [Carriable α] (decoded : Decoded α) :
    (decoded.map AnyValue.of).narrow α = .ok decoded := by
  cases decoded with
  | value value =>
    rw [Decoded.map, Decoded.narrow, AnyValue.as?_of]
  | absent => rfl
  | skipped => rfl

/-- Of two types that stand for the same value type one has the values of the other. -/
theorem Decoded.exists_map_of {α β : Type} [Carriable α] [Carriable β] (decoded : Decoded β)
    (h : ValueType.of β = ValueType.of α) :
    ∃ same : Decoded α, decoded.map AnyValue.of = same.map AnyValue.of := by
  cases decoded with
  | value value =>
    obtain ⟨other, hother⟩ : ∃ other : α, AnyValue.of value = .of other :=
      AnyValue.exists_eq_of h
    exact ⟨.value other, congrArg Decoded.value hother⟩
  | absent => exact ⟨.absent, rfl⟩
  | skipped => exact ⟨.skipped, rfl⟩

/-- The failure, if there is one, is not that a value is of another type. -/
def NoMismatch {α : Type} (result : Except CodecError α) : Prop :=
  ∀ expected, result ≠ .error (.typeMismatch expected)

/-- The codec as one for a type. -/
def AnyCodec.typedAs (codec : AnyCodec) (α : Type) [Carriable α] : Codec α where
  name := codec.name
  fixedWidth := codec.fixedWidth
  encode value := codec.encode (value.map AnyValue.of)
  decode bytes := (codec.decode bytes).bind (Decoded.narrow α)

namespace Codec

variable {α : Type} [Carriable α]

theorem decode_erased (codec : Codec α) (bytes : Option Bytes) :
    codec.erased.decode bytes = (codec.decode bytes).map (·.map AnyValue.of) := rfl

theorem encode_erased_map (codec : Codec α) (value : Option α) :
    codec.erased.encode (value.map AnyValue.of) = codec.encode value := by
  cases value with
  | none => rfl
  | some value => exact codec.encode_erased_of value

theorem encode_erased_of_ne (codec : Codec α) {any : AnyValue} (h : any.type ≠ .of α) :
    codec.erased.encode (some any) = .error (.typeMismatch (ValueType.of α).name) := by
  rw [erased]
  dsimp only
  rw [AnyValue.as?_eq_none_iff.2 h]

theorem narrow_decode_erased (codec : Codec α) (bytes : Option Bytes) :
    (codec.erased.decode bytes).bind (Decoded.narrow α) = codec.decode bytes := by
  rw [decode_erased]
  cases codec.decode bytes with
  | error failure => rfl
  | ok decoded => exact decoded.narrow_map_of

theorem decode_erased_eq_error_iff {codec : Codec α} {bytes : Option Bytes} {failure : CodecError} :
    codec.erased.decode bytes = .error failure ↔ codec.decode bytes = .error failure := by
  rw [decode_erased]
  cases codec.decode bytes with
  | error other =>
    show Except.error other = _ ↔ _
    rw [Except.error.injEq, Except.error.injEq]
  | ok _ => exact ⟨nofun, nofun⟩

/-- The typed codec is what the erased one is as a codec for the type. -/
theorem typedAs_erased (codec : Codec α) : codec.erased.typedAs α = codec :=
  Codec.ext rfl rfl (funext codec.encode_erased_map) (funext codec.narrow_decode_erased)

theorem erased_injective : Function.Injective (Codec.erased (α := α)) := by
  intro codec other h
  rw [← codec.typedAs_erased, h, other.typedAs_erased]

/-- Another type that stands for the same value type has a codec that is erased to the same one. -/
theorem erased_typedAs {β : Type} [Carriable β] (codec : Codec β)
    (h : ValueType.of β = ValueType.of α) : (codec.erased.typedAs α).erased = codec.erased := by
  apply AnyCodec.ext
  · exact h.symm
  · rfl
  · rfl
  · rfl
  · funext value
    cases value with
    | none => rfl
    | some any =>
      by_cases hany : any.type = .of α
      · obtain ⟨value, rfl⟩ := AnyValue.exists_eq_of hany
        exact encode_erased_of _ value
      · rw [encode_erased_of_ne _ hany, encode_erased_of_ne _ (h ▸ hany), h]
  · funext bytes
    show ((codec.erased.decode bytes).bind (Decoded.narrow α)).map _ = codec.erased.decode bytes
    rw [decode_erased]
    cases codec.decode bytes with
    | error failure => rfl
    | ok decoded =>
      obtain ⟨same, hsame⟩ := decoded.exists_map_of h
      show (Decoded.narrow α (decoded.map AnyValue.of)).map _ = .ok (decoded.map AnyValue.of)
      rw [hsame, same.narrow_map_of]
      rfl

/-! ### Values of another type -/

/-- The codec does not report of itself that a value is of another type. -/
structure NeverMismatches {α : Type} (codec : Codec α) : Prop where
  encode : ∀ value, NoMismatch (codec.encode value)
  decode : ∀ bytes, NoMismatch (codec.decode bytes)

/-- So the erased codec reports it for values of another type and for nothing else, and says which
type it is for. -/
theorem NeverMismatches.encode_erased_eq_iff {codec : Codec α} (h : codec.NeverMismatches)
    {value : Option AnyValue} {expected : String} :
    codec.erased.encode value = .error (.typeMismatch expected) ↔
      expected = (ValueType.of α).name ∧ ∃ any, value = some any ∧ any.type ≠ .of α := by
  cases value with
  | none => exact iff_of_false (h.encode none expected) nofun
  | some any =>
    by_cases hany : any.type = .of α
    · obtain ⟨value, rfl⟩ := AnyValue.exists_eq_of hany
      rw [encode_erased_of]
      refine iff_of_false (h.encode _ expected) ?_
      rintro ⟨-, _, ⟨⟩, hne⟩
      exact hne hany
    · rw [encode_erased_of_ne _ hany, Except.error.injEq, CodecError.typeMismatch.injEq, eq_comm]
      exact ⟨fun hname => ⟨hname, any, rfl, hany⟩, And.left⟩

/-- Nor does then the codec for another type with the same erased codec. -/
theorem NeverMismatches.of_erased_eq {β : Type} [Carriable β] {codec : Codec β} {other : Codec α}
    (h : codec.NeverMismatches) (hsame : other.erased = codec.erased) : other.NeverMismatches where
  encode value expected hmismatch := by
    rw [← other.encode_erased_map, hsame, h.encode_erased_eq_iff] at hmismatch
    obtain ⟨-, any, hvalue, htype⟩ := hmismatch
    obtain ⟨value, -, rfl⟩ := Option.map_eq_some_iff.1 hvalue
    exact htype (congrArg AnyCodec.target hsame)
  decode bytes expected hmismatch := by
    rw [← decode_erased_eq_error_iff, hsame, decode_erased_eq_error_iff] at hmismatch
    exact h.decode bytes expected hmismatch

end Codec

end CommandWire
