import CommandWire.PublishScope

/-!
# What the entries of a publish scope are worth

A publish scope is used with many codecs, typed ones and others; `ScopeCodec` is any of them. An
entry is *justified* by a set of codecs if one of them has given the answer that is remembered, and
has given it about what the entry pins.

This is the part of the correctness of the cache that does not depend on memory. A call leaves old
entries alone, and what it adds is justified by the codec that was asked (`mem_encoded_encodeOnce`,
`mem_decoded_decodeOnce`). And if codecs of the same identity answer alike, a justified entry that
pins what the call is about answers for the codec (`result_encodeOnce`, `result_decodeOnce`).
-/

namespace CommandWire

/-! ### Codecs and their answers -/

/-- A codec that a publish scope is used with. -/
inductive ScopeCodec : Type 1
  | typed {α : Type} [Carriable α] (codec : Codec α)
  | any (codec : AnyCodec)

namespace ScopeCodec

def id : ScopeCodec → CodecId
  | typed codec => codec.id
  | any codec => codec.id

/-- What the codec answers when it is to encode a value. A typed codec can only be asked about
values of its type. -/
inductive Encodes : ScopeCodec → AnyValue → Except CodecError (Option Bytes) → Prop
  | typed {α : Type} [Carriable α] (codec : Codec α) (value : α) :
      Encodes (.typed codec) (.of value) (codec.encode (some value))
  | any (codec : AnyCodec) (value : AnyValue) :
      Encodes (.any codec) value (codec.encode (some value))

/-- What the codec answers when it is to decode bytes. -/
def decode : ScopeCodec → Bytes → Except CodecError (Decoded AnyValue)
  | typed codec, bytes => (codec.decode (some bytes)).map (·.map AnyValue.of)
  | any codec, bytes => codec.decode (some bytes)

/-- Among these codecs those of the same identity encode alike, as far as they can be asked. -/
def EncodeAlike (codecs : ScopeCodec → Prop) : Prop :=
  ∀ a b, codecs a → codecs b → a.id = b.id →
    ∀ value x y, a.Encodes value x → b.Encodes value y → x = y

/-- Among these codecs those of the same identity decode alike. -/
def DecodeAlike (codecs : ScopeCodec → Prop) : Prop :=
  ∀ a b, codecs a → codecs b → a.id = b.id → ∀ bytes, a.decode bytes = b.decode bytes

end ScopeCodec

namespace PublishScope

variable {codecs : ScopeCodec → Prop} {codec : ScopeCodec} {s : PublishScope}

/-! ### Encodings -/

/-- One of the codecs has given the encoding of the value that is pinned. -/
structure KnownEncoding.Justified (codecs : ScopeCodec → Prop) (entry : KnownEncoding) : Prop where
  address_eq : entry.key.address = entry.pinned.address
  answered : ∃ codec, codecs codec ∧ codec.id = entry.key.codec ∧
    codec.Encodes entry.pinned.value (.ok entry.bytes)

/-- What an encoding call can do: find an entry, pass a failure on, or add an entry. -/
theorem encodeOnce_cases (s : PublishScope) (key : EncodedKey) (value : Shared AnyValue)
    (compute : Unit → Except CodecError (Option Bytes)) :
    (∃ entry, s.encoded.find? (·.key = key) = some entry ∧
      s.encodeOnce key value compute = ⟨.ok entry.bytes, s, []⟩) ∨
    (s.encoded.find? (·.key = key) = none ∧ ∃ failure, compute () = .error failure ∧
      s.encodeOnce key value compute =
        ⟨.error failure, s, [.encode key.codec value.value.type]⟩) ∨
    (s.encoded.find? (·.key = key) = none ∧ ∃ bytes, compute () = .ok bytes ∧
      s.encodeOnce key value compute =
        ⟨.ok bytes, { s with encoded := ⟨key, value, bytes⟩ :: s.encoded },
          [.encode key.codec value.value.type]⟩) := by
  rw [encodeOnce]
  cases s.encoded.find? (·.key = key) with
  | some entry => exact .inl ⟨entry, rfl, rfl⟩
  | none =>
    cases compute () with
    | error failure => exact .inr (.inl ⟨rfl, failure, rfl, rfl⟩)
    | ok bytes => exact .inr (.inr ⟨rfl, bytes, rfl, rfl⟩)

/-- What is remembered after a call was remembered before, or is the codec's answer to this call. -/
theorem mem_encoded_encodeOnce {key : EncodedKey} {value : Shared AnyValue}
    {compute : Unit → Except CodecError (Option Bytes)} {entry : KnownEncoding}
    (h : entry ∈ (s.encodeOnce key value compute).scope.encoded) :
    entry ∈ s.encoded ∨
      (entry.key = key ∧ entry.pinned = value ∧ compute () = .ok entry.bytes) := by
  rcases s.encodeOnce_cases key value compute with
    ⟨_, _, hout⟩ | ⟨_, _, _, hout⟩ | ⟨_, bytes, hc, hout⟩
  · rw [hout] at h
    exact .inl h
  · rw [hout] at h
    exact .inl h
  · rw [hout] at h
    rcases List.mem_cons.1 h with rfl | h
    · exact .inr ⟨rfl, rfl, hc⟩
    · exact .inl h

theorem decoded_encodeOnce (s : PublishScope) (key : EncodedKey) (value : Shared AnyValue)
    (compute : Unit → Except CodecError (Option Bytes)) :
    (s.encodeOnce key value compute).scope.decoded = s.decoded := by
  rcases s.encodeOnce_cases key value compute with
    ⟨_, _, hout⟩ | ⟨_, _, _, hout⟩ | ⟨_, _, _, hout⟩ <;> rw [hout]

/-- A call has the result that the codec gives, if the entries are justified and no entry pins
another value at the same address. -/
theorem result_encodeOnce (halike : ScopeCodec.EncodeAlike codecs) (hcodec : codecs codec)
    {type : ValueType} {value : Shared AnyValue}
    {compute : Unit → Except CodecError (Option Bytes)}
    (hcompute : codec.Encodes value.value (compute ()))
    (hs : ∀ entry ∈ s.encoded, entry.Justified codecs)
    (hpinned : ∀ entry ∈ s.encoded, entry.pinned.address = value.address → entry.pinned = value) :
    (s.encodeOnce ⟨value.address, type, codec.id⟩ value compute).result = compute () := by
  rcases s.encodeOnce_cases ⟨value.address, type, codec.id⟩ value compute with
    ⟨entry, hfind, hout⟩ | ⟨_, failure, hc, hout⟩ | ⟨_, bytes, hc, hout⟩
  · -- The entry is the answer of some codec of the same identity about the same value.
    have hmem := List.mem_of_find?_eq_some hfind
    obtain ⟨haddress, other, hother, hid, hanswer⟩ := hs entry hmem
    have hkey : entry.key = ⟨value.address, type, codec.id⟩ := by simpa using List.find?_some hfind
    rw [hkey] at haddress hid
    rw [hpinned entry hmem haddress.symm] at hanswer
    rw [hout]
    exact halike other codec hother hcodec hid _ _ _ hanswer hcompute
  · rw [hout, hc]
  · rw [hout, hc]

/-! ### Decoded values -/

/-- One of the codecs has decoded the view that is pinned to this value. -/
structure KnownValue.Justified (codecs : ScopeCodec → Prop) (entry : KnownValue) : Prop where
  address_eq : entry.key.address = entry.pinned.address
  length_eq : entry.key.length = entry.pinned.bytes.length
  answered : ∃ codec, codecs codec ∧ codec.id = entry.key.codec ∧
    codec.decode entry.pinned.bytes = .ok (entry.value.map Shared.value)

/-- What a decoding call can do: find an entry, pass a failure on, or add an entry. -/
theorem decodeOnce_cases (s : PublishScope) (key : DecodedKey) (view : View) (address : Nat)
    (compute : Unit → Except CodecError (Decoded AnyValue)) :
    (∃ entry, s.decoded.find? (·.key = key) = some entry ∧
      s.decodeOnce key view address compute = ⟨.ok entry.value, s, []⟩) ∨
    (s.decoded.find? (·.key = key) = none ∧ ∃ failure, compute () = .error failure ∧
      s.decodeOnce key view address compute = ⟨.error failure, s, [.decode key.codec]⟩) ∨
    (s.decoded.find? (·.key = key) = none ∧ ∃ decoded, compute () = .ok decoded ∧
      s.decodeOnce key view address compute =
        ⟨.ok (decoded.map (Shared.mk address)),
          { s with decoded := ⟨key, view, decoded.map (Shared.mk address)⟩ :: s.decoded },
          [.decode key.codec]⟩) := by
  rw [decodeOnce]
  cases s.decoded.find? (·.key = key) with
  | some entry => exact .inl ⟨entry, rfl, rfl⟩
  | none =>
    cases compute () with
    | error failure => exact .inr (.inl ⟨rfl, failure, rfl, rfl⟩)
    | ok decoded => exact .inr (.inr ⟨rfl, decoded, rfl, rfl⟩)

theorem mem_decoded_decodeOnce {key : DecodedKey} {view : View} {address : Nat}
    {compute : Unit → Except CodecError (Decoded AnyValue)} {entry : KnownValue}
    (h : entry ∈ (s.decodeOnce key view address compute).scope.decoded) :
    entry ∈ s.decoded ∨ (entry.key = key ∧ entry.pinned = view ∧
      ∃ decoded, compute () = .ok decoded ∧ entry.value = decoded.map (Shared.mk address)) := by
  rcases s.decodeOnce_cases key view address compute with
    ⟨_, _, hout⟩ | ⟨_, _, _, hout⟩ | ⟨_, decoded, hc, hout⟩
  · rw [hout] at h
    exact .inl h
  · rw [hout] at h
    exact .inl h
  · rw [hout] at h
    rcases List.mem_cons.1 h with rfl | h
    · exact .inr ⟨rfl, rfl, decoded, hc, rfl⟩
    · exact .inl h

theorem encoded_decodeOnce (s : PublishScope) (key : DecodedKey) (view : View) (address : Nat)
    (compute : Unit → Except CodecError (Decoded AnyValue)) :
    (s.decodeOnce key view address compute).scope.encoded = s.encoded := by
  rcases s.decodeOnce_cases key view address compute with
    ⟨_, _, hout⟩ | ⟨_, _, _, hout⟩ | ⟨_, _, _, hout⟩ <;> rw [hout]

/-- A value that comes out of a call is one that the scope holds afterwards. -/
theorem mem_decoded_of_result_decodeOnce {key : DecodedKey} {view : View} {address : Nat}
    {compute : Unit → Except CodecError (Decoded AnyValue)} {value : Shared AnyValue}
    (h : (s.decodeOnce key view address compute).result = .ok (.value value)) :
    ∃ entry ∈ (s.decodeOnce key view address compute).scope.decoded,
      entry.value = .value value := by
  rcases s.decodeOnce_cases key view address compute with
    ⟨entry, hfind, hout⟩ | ⟨_, _, _, hout⟩ | ⟨_, decoded, _, hout⟩
  · rw [hout] at h ⊢
    exact ⟨entry, List.mem_of_find?_eq_some hfind, Except.ok.inj h⟩
  · rw [hout] at h
    cases h
  · rw [hout] at h ⊢
    exact ⟨_, List.mem_cons_self, Except.ok.inj h⟩

/-- A call has the result that the codec gives, if the entries are justified and no entry pins
another view of the same length at the same address. -/
theorem result_decodeOnce (halike : ScopeCodec.DecodeAlike codecs) (hcodec : codecs codec)
    {view : View} (address : Nat) (hs : ∀ entry ∈ s.decoded, entry.Justified codecs)
    (hpinned : ∀ entry ∈ s.decoded, entry.pinned.address = view.address →
      entry.pinned.bytes.length = view.bytes.length → entry.pinned.bytes = view.bytes) :
    (s.decodeOnce ⟨view.address, view.bytes.length, codec.id⟩ view address
      fun _ => codec.decode view.bytes).result.map (·.map Shared.value) =
        codec.decode view.bytes := by
  rcases s.decodeOnce_cases ⟨view.address, view.bytes.length, codec.id⟩ view address
      (fun _ => codec.decode view.bytes) with
    ⟨entry, hfind, hout⟩ | ⟨_, failure, hc, hout⟩ | ⟨_, decoded, hc, hout⟩
  · have hmem := List.mem_of_find?_eq_some hfind
    obtain ⟨haddress, hlength, other, hother, hid, hanswer⟩ := hs entry hmem
    have hkey : entry.key = ⟨view.address, view.bytes.length, codec.id⟩ := by
      simpa using List.find?_some hfind
    rw [hkey] at haddress hlength hid
    rw [hpinned entry hmem haddress.symm hlength.symm] at hanswer
    rw [hout, ← halike other codec hother hcodec hid, hanswer]
    rfl
  · rw [hout, hc]
    rfl
  · rw [hout, hc]
    exact congrArg Except.ok ((decoded.map_map _ _).trans decoded.map_id)

/-! ### Decoding to a known type -/

variable {α : Type} [Carriable α]

/-- A value of the wanted type comes out as it is held. -/
theorem eq_of_narrow {decoded : Decoded (Shared AnyValue)} {value : Shared α}
    (h : narrow α decoded = .ok (.value value)) : decoded = .value (value.map AnyValue.of) := by
  cases decoded with
  | value any =>
    rw [narrow] at h
    split at h
    next x hx =>
      cases h
      rw [Shared.map, ← AnyValue.as?_eq_some_iff.1 hx]
    next => cases h
  | absent => cases h
  | skipped => cases h

/-- What holds a value of the wanted type is never refused. -/
theorem narrow_of_map_eq {any : Decoded (Shared AnyValue)} {decoded : Decoded α}
    (h : any.map Shared.value = decoded.map AnyValue.of) :
    (narrow α any).map (·.map Shared.value) = .ok decoded := by
  cases any with
  | value held =>
    cases decoded with
    | value x =>
      have hx : held.value = .of x := Decoded.value.inj h
      rw [narrow, hx, AnyValue.as?_of]
      rfl
    | absent => cases h
    | skipped => cases h
  | absent =>
    cases decoded with
    | absent => rfl
    | value => cases h
    | skipped => cases h
  | skipped =>
    cases decoded with
    | skipped => rfl
    | value => cases h
    | absent => cases h

theorem result_decodeOnce_of_decode {codec : Codec α} {view : View} {address : Nat}
    {value : Shared α} (h : (s.decode codec view address).result = .ok (.value value)) :
    (s.decodeOnce ⟨view.address, view.bytes.length, codec.id⟩ view address
      fun _ => ScopeCodec.decode (.typed codec) view.bytes).result =
        .ok (.value (value.map AnyValue.of)) := by
  rw [decode] at h
  dsimp only at h
  split at h
  next => cases h
  next any hr => exact hr.trans (congrArg Except.ok (eq_of_narrow h))

/-- If the call without a type has the result that the codec gives, then so has the call with the
type; in particular it finds no value of another type. -/
theorem result_decode_of_decodeOnce {codec : Codec α} {view : View} {address : Nat}
    (h : (s.decodeOnce ⟨view.address, view.bytes.length, codec.id⟩ view address
      fun _ => ScopeCodec.decode (.typed codec) view.bytes).result.map (·.map Shared.value) =
        ScopeCodec.decode (.typed codec) view.bytes) :
    (s.decode codec view address).result.map (·.map Shared.value) =
      codec.decode (some view.bytes) := by
  rw [decode]
  dsimp only
  split
  next failure hr =>
    have he : .error failure = (codec.decode (some view.bytes)).map (·.map AnyValue.of) :=
      (congrArg (Except.map (Decoded.map Shared.value)) hr).symm.trans h
    cases hc : codec.decode (some view.bytes) with
    | error other =>
      rw [hc] at he
      cases he
      rfl
    | ok decoded =>
      rw [hc] at he
      cases he
  next any hr =>
    have he : .ok (any.map Shared.value) =
        (codec.decode (some view.bytes)).map (·.map AnyValue.of) :=
      (congrArg (Except.map (Decoded.map Shared.value)) hr).symm.trans h
    cases hc : codec.decode (some view.bytes) with
    | error failure =>
      rw [hc] at he
      cases he
    | ok decoded =>
      rw [hc] at he
      exact narrow_of_map_eq (Except.ok.inj he)

end PublishScope

end CommandWire
