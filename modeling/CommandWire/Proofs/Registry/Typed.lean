import CommandWire.Proofs.Argument.Mismatch
import CommandWire.Proofs.Registry.Answers

/-!
# Typed requests to a registry

A registry keeps codecs whose types have been erased, and requests may be about values that carry
their types or about typed ones. If every codec has been registered for the type that it was made
for (`AnyCodec.Adapts`), the codec that is found for a type is a typed one for it, since the
fallback is; so all requests for the type are answered as that codec answers, and no value that is
decoded is of another type (`typed_requests_answered`). Registries of the built-in codecs are like
that (`builtinFactories_adapt`).
-/

namespace CommandWire

namespace AnyCodec

/-- The codec is a typed one for this value type, with its type erased, and it does not report of
itself that a value is of another type. -/
def Adapts (codec : AnyCodec) (type : ValueType) : Prop :=
  ∃ (α : Type) (_ : Carriable α) (typed : Codec α),
    ValueType.of α = type ∧ codec = typed.erased ∧ typed.NeverMismatches

/-- A missing value is encoded as missing bytes, and missing bytes are decoded as a missing
value. -/
structure KeepsMissing (codec : AnyCodec) : Prop where
  encode_none : codec.encode none = .ok none
  decode_none : codec.decode none = .ok .absent

variable {α : Type} [Carriable α]

theorem adapts_erased {typed : Codec α} (h : typed.NeverMismatches) :
    typed.erased.Adapts (.of α) :=
  ⟨α, inferInstance, typed, rfl, rfl, h⟩

/-- It is so for every type that stands for the value type. -/
theorem Adapts.exists_typed {codec : AnyCodec} (h : codec.Adapts (.of α)) :
    ∃ typed : Codec α, codec = typed.erased ∧ typed.NeverMismatches := by
  obtain ⟨β, _, other, htype, rfl, hother⟩ := h
  have hsame := other.erased_typedAs htype
  exact ⟨other.erased.typedAs α, hsame.symm, hother.of_erased_eq hsame⟩

end AnyCodec

namespace ValueType

theorem fallback_adapts (type : ValueType) : type.fallback.Adapts type :=
  let _ := type.carriable
  AnyCodec.adapts_erased (α := type.Data) Codec.fallback_neverMismatches

theorem fallback_keepsMissing (type : ValueType) : type.fallback.KeepsMissing := ⟨rfl, rfl⟩

end ValueType

namespace Registry

/-! ### Codecs that are found -/

theorem mem_of_lastRegistered? {past : List Step} {type : ValueType} {codec : AnyCodec}
    (h : lastRegistered? past type = some codec) : .registered type codec ∈ past := by
  obtain ⟨step, hstep, hcodec⟩ := List.mem_filterMap.1 (List.mem_of_getLast? h)
  cases step with
  | registered other _ =>
    rw [Step.codecFor?] at hcodec
    split at hcodec
    next same =>
      cases hcodec
      exact same ▸ hstep
    next => cases hcodec
  | lookedUp _ => cases hcodec
  | passedOver _ => cases hcodec

/-- If all codecs have been registered for their types, the codec for a type is one for it. -/
theorem codecOf_adapts {past : List Step}
    (h : ∀ type codec, .registered type codec ∈ past → codec.Adapts type) (type : ValueType) :
    (codecOf past type).Adapts type := by
  rw [codecOf]
  cases hlast : lastRegistered? past type with
  | some codec => exact h type codec (mem_of_lastRegistered? hlast)
  | none => exact type.fallback_adapts

/-! ### Answers -/

section

variable {α : Type} [Carriable α]

/-- Whatever is asked about a type, this codec for it is found, and answers. -/
structure AnswersAs (r : Registry) (codec : Codec α) : Prop where
  found : (r.lookup (.of α)).result.codec = codec.erased
  encodeTyped : ∀ value, (r.encodeTyped value).result = codec.encode value
  encode : ∀ value : Option α,
    (r.encode (.of α) (value.map AnyValue.of)).result = codec.encode value
  decodeTyped : ∀ bytes, (r.decodeTyped α bytes).result = codec.decode bytes
  decode : ∀ bytes, (r.decode (.of α) bytes).result = (codec.decode bytes).map (·.map AnyValue.of)
  /-- What is decoded without a type can be taken for a value of the type. -/
  narrow_decode : ∀ bytes,
    (r.decode (.of α) bytes).result.bind (Decoded.narrow α) = codec.decode bytes
  decodeTyped_noMismatch : ∀ bytes, NoMismatch (r.decodeTyped α bytes).result
  /-- Values of other types are refused, with the name of this type, and no others. -/
  encode_mismatch_iff : ∀ value expected,
    (r.encode (.of α) value).result = .error (.typeMismatch expected) ↔
      expected = (ValueType.of α).name ∧ ∃ any, value = some any ∧ any.type ≠ .of α
  /-- What is missing stays so, if it does with the codec. -/
  missing : codec.erased.KeepsMissing →
    (r.encodeTyped (none : Option α)).result = .ok none ∧
    (r.encode (.of α) none).result = .ok none ∧
    (r.decodeTyped α none).result = .ok .absent ∧ (r.decode (.of α) none).result = .ok .absent

theorem answersAs_of_found {r : Registry} {codec : Codec α}
    (hfound : (r.lookup (.of α)).result.codec = codec.erased) (h : codec.NeverMismatches) :
    r.AnswersAs codec := by
  have hencode : ∀ value, (r.encode (.of α) value).result = codec.erased.encode value :=
    fun value => congrArg (·.encode value) hfound
  have hdecode : ∀ bytes, (r.decode (.of α) bytes).result = codec.erased.decode bytes :=
    fun bytes => congrArg (·.decode bytes) hfound
  have hencodeTyped : ∀ value, (r.encodeTyped value).result = codec.encode value :=
    fun value => (hencode _).trans (codec.encode_erased_map value)
  have hdecodeTyped : ∀ bytes, (r.decodeTyped α bytes).result = codec.decode bytes := by
    intro bytes
    rw [result_decodeTyped, hfound, codec.narrow_decode_erased]
  exact {
    found := hfound
    encodeTyped := hencodeTyped
    encode := hencodeTyped
    decodeTyped := hdecodeTyped
    decode := hdecode
    narrow_decode := fun bytes => by rw [hdecode, codec.narrow_decode_erased]
    decodeTyped_noMismatch := fun bytes => by
      rw [hdecodeTyped]
      exact h.decode bytes
    encode_mismatch_iff := fun value expected => by rw [hencode, h.encode_erased_eq_iff]
    missing := fun hmissing => by
      have hencodeNone : codec.encode none = .ok none := hmissing.encode_none
      have hdecodeNone : codec.decode none = .ok .absent := by
        rw [← codec.narrow_decode_erased, hmissing.decode_none]
        rfl
      rw [hencodeTyped, hencode, hdecodeTyped, hdecode]
      exact ⟨hencodeNone, hmissing.encode_none, hdecodeNone, hmissing.decode_none⟩ }

/-- **Typed and untyped requests agree.** If every codec has been registered for the type that it
was made for, one typed codec answers for a type, whatever else has been asked: the one registered
last, or the fallback, which keeps what is missing. -/
theorem typed_requests_answered (requests : List Request)
    (hregistered : ∀ type codec, .registered type codec ∈ history requests → codec.Adapts type)
    (α : Type) [Carriable α] :
    ∃! codec : Codec α, codec.erased = codecOf (history requests) (.of α) ∧
      (empty.run requests).registry.AnswersAs codec ∧
      (lastRegistered? (history requests) (.of α) = none → codec.erased.KeepsMissing) := by
  have hfollows : (empty.run requests).registry.Follows (history requests) :=
    follows_empty.run requests
  have hfound : ((empty.run requests).registry.lookup (.of α)).result.codec =
      codecOf (history requests) (.of α) := by
    rw [codec_lookup, hfollows.codecFor_eq]
  obtain ⟨codec, hcodec, hmismatch⟩ := (codecOf_adapts hregistered (.of α)).exists_typed
  have hanswers : (empty.run requests).registry.AnswersAs codec :=
    answersAs_of_found (hfound.trans hcodec) hmismatch
  refine ⟨codec, ⟨hcodec.symm, hanswers, fun hnone => ?_⟩, fun other hother => ?_⟩
  · rw [← hcodec, codecOf, hnone]
    exact (ValueType.of α).fallback_keepsMissing
  · exact Codec.erased_injective (hother.1.trans hcodec)

end

/-! ### Built-in codecs -/

/-- If the factory has a target, it makes codecs for that type. -/
def Factory.Adapts (factory : Factory) : Prop :=
  ∀ type, factory.target = some type → (factory.build ()).Adapts type

theorem Factory.ofCodec_adapts {α : Type} [Carriable α] {codec : Codec α}
    (h : codec.NeverMismatches) : (Factory.ofCodec codec).Adapts := by
  rintro _ ⟨⟩
  exact AnyCodec.adapts_erased h

/-- All that an installation registers comes from the factories. -/
theorem adapts_of_installed {factories : List Factory} (h : ∀ f ∈ factories, f.Adapts)
    {type : ValueType} {codec : AnyCodec}
    (hstep : .registered type codec ∈ (Request.install factories).steps) : codec.Adapts type := by
  obtain ⟨factory, hfactory, hregistered⟩ := List.mem_map.1 hstep
  cases htarget : factory.target with
  | none =>
    rw [htarget] at hregistered
    cases hregistered
  | some target =>
    rw [htarget] at hregistered
    cases hregistered
    exact h factory hfactory type htarget

open Codec in
theorem builtinFactories_adapt : ∀ f ∈ builtinFactories, f.Adapts := by
  simp only [builtinFactories, List.forall_mem_cons]
  refine ⟨?_, ?_, ?_, ?_, ?_, ?_, ?_, ?_, ?_, ?_, ?_, ?_, ?_, ?_, ?_, ?_, ?_, nofun⟩
  · exact Factory.ofCodec_adapts bool_neverMismatches
  · exact Factory.ofCodec_adapts short_neverMismatches
  · exact Factory.ofCodec_adapts int_neverMismatches
  · exact Factory.ofCodec_adapts long_neverMismatches
  · exact Factory.ofCodec_adapts double_neverMismatches
  · exact Factory.ofCodec_adapts ordinal_neverMismatches
  · exact Factory.ofCodec_adapts ordinal_neverMismatches
  · exact Factory.ofCodec_adapts ordinal_neverMismatches
  · exact Factory.ofCodec_adapts point_neverMismatches
  · exact Factory.ofCodec_adapts limit_neverMismatches
  · exact Factory.ofCodec_adapts expiration_neverMismatches
  · exact Factory.ofCodec_adapts geoLocation_neverMismatches
  · exact Factory.ofCodec_adapts (range_neverMismatches double_neverMismatches)
  · exact Factory.ofCodec_adapts (range_neverMismatches long_neverMismatches)
  · exact Factory.ofCodec_adapts (range_neverMismatches string_neverMismatches)
  · exact Factory.ofCodec_adapts sortOptions_neverMismatches
  · exact Factory.ofCodec_adapts weightedKeys_neverMismatches

/-- The fallback for a type has been kept before the built-in codecs are installed. -/
def lateInstallation : List Request := [.lookup (.of Int64), .install builtinFactories]

theorem adapts_of_lateInstallation {type : ValueType} {codec : AnyCodec}
    (h : .registered type codec ∈ history lateInstallation) : codec.Adapts type := by
  obtain ⟨request, hrequest, hstep⟩ := List.mem_flatMap.1 h
  obtain rfl | hrequest := List.mem_cons.1 hrequest
  · cases List.mem_singleton.1 hstep
  · rw [List.mem_singleton.1 hrequest] at hstep
    exact adapts_of_installed builtinFactories_adapt hstep

/-- The fallback is replaced: the built-in codec answers, and it refuses numbers of another
width. -/
theorem typed_requests_answered_lateInstallation :
    (∀ type codec, .registered type codec ∈ history lateInstallation → codec.Adapts type) ∧
    (empty.run lateInstallation).registry.AnswersAs Codec.long ∧
    ((empty.run lateInstallation).registry.decodeTyped Int64
      (some [0, 1, 0, 0, 0, 0, 0, 0])).result = .ok (.value 256) ∧
    ((empty.run lateInstallation).registry.encode (.of Int64) (some (.of (1 : Int32)))).result =
      .error (.typeMismatch "i64") ∧
    ((empty.run lateInstallation).registry.decodeTyped Int64 none).result = .ok .absent := by
  have hadapt : ∀ type codec,
      .registered type codec ∈ history lateInstallation → codec.Adapts type :=
    fun _ _ => adapts_of_lateInstallation
  obtain ⟨codec, ⟨hcodec, hanswers, -⟩, -⟩ := typed_requests_answered lateInstallation hadapt Int64
  have hlong : codec = Codec.long := Codec.erased_injective (hcodec.trans rfl)
  subst hlong
  refine ⟨hadapt, hanswers, ?_, ?_, ?_⟩
  · rw [hanswers.decodeTyped]
    rfl
  · exact (hanswers.encode_mismatch_iff _ _).2 ⟨rfl, _, rfl, by decide⟩
  · exact (hanswers.missing ⟨rfl, rfl⟩).2.2.1

end Registry

end CommandWire
