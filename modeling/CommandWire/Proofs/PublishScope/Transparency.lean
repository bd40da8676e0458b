import CommandWire.Codec.Primitive
import CommandWire.Proofs.Codec.Carrying
import CommandWire.Proofs.PublishScope.Session

/-!
# A publish scope is transparent

In a session whose codecs are alike if they have the same identity, every call of the publish scope
returns what the codec itself returns (`Session.answers_as_codec`): whether there is an entry or
not, and no matter how often addresses have been used for something else before. The entries are
found by address, and the invariant says that what an entry pins is what lies there.
-/

namespace CommandWire

namespace ScopeCodec

variable {α : Type} [Carriable α]

/-- A typed codec as it is, and the codec for values of any type that it becomes. -/
def OfCodec (codec : Codec α) (c : ScopeCodec) : Prop := c = .typed codec ∨ c = .any codec.erased

theorem OfCodec.encodes {codec : Codec α} {c : ScopeCodec} (hc : OfCodec codec c) {value : AnyValue}
    {answer : Except CodecError (Option Bytes)} (h : c.Encodes value answer) :
    answer = codec.erased.encode (some value) := by
  rcases hc with rfl | rfl
  · cases h with
    | typed _ x => exact (codec.encode_erased_of x).symm
  · cases h with
    | any => rfl

theorem encodeAlike_ofCodec (codec : Codec α) : EncodeAlike (OfCodec codec) := by
  intro a b ha hb _ value x y hx hy
  rw [ha.encodes hx, hb.encodes hy]

theorem decodeAlike_ofCodec (codec : Codec α) : DecodeAlike (OfCodec codec) := by
  rintro a b (rfl | rfl) (rfl | rfl) _ bytes <;> rfl

end ScopeCodec

namespace Session

variable {codecs : ScopeCodec → Prop} {s : Session}

namespace Sound

/-- What an entry pins at the address of a value in hand is this value. -/
theorem pinned_eq (hs : s.Sound codecs) {value : Shared AnyValue} (hvalue : value ∈ s.values) :
    ∀ entry ∈ s.scope.encoded, entry.pinned.address = value.address → entry.pinned = value :=
  fun _ hentry => hs.values_agree _ _ (.encoded hentry) (.caller hvalue)

/-- What an entry pins where a view in hand lies has the same bytes. -/
theorem pinned_bytes_eq (hs : s.Sound codecs) {view : View} (hview : view ∈ s.views) :
    ∀ entry ∈ s.scope.decoded, entry.pinned.address = view.address →
      entry.pinned.bytes.length = view.bytes.length → entry.pinned.bytes = view.bytes :=
  fun _ hentry => (hs.views_agree _ _ (.decoded hentry) (.caller hview)).bytes_eq

variable {α : Type} [Carriable α]

theorem result_encode (hs : s.Sound codecs) (halike : ScopeCodec.EncodeAlike codecs)
    {codec : Codec α} (hcodec : codecs (.typed codec)) {value : Shared α}
    (hvalue : value.map AnyValue.of ∈ s.values) :
    (s.scope.encode codec value).result = codec.encode (some value.value) :=
  PublishScope.result_encodeOnce halike hcodec (.typed codec value.value) hs.encoded_justified
    (hs.pinned_eq hvalue)

theorem result_encodeAny (hs : s.Sound codecs) (halike : ScopeCodec.EncodeAlike codecs)
    {codec : AnyCodec} (hcodec : codecs (.any codec)) {value : Shared AnyValue}
    (hvalue : value ∈ s.values) :
    (s.scope.encodeAny codec value).result = codec.encode (some value.value) :=
  PublishScope.result_encodeOnce halike hcodec (.any codec value.value) hs.encoded_justified
    (hs.pinned_eq hvalue)

theorem result_decode (hs : s.Sound codecs) (halike : ScopeCodec.DecodeAlike codecs)
    {codec : Codec α} (hcodec : codecs (.typed codec)) {view : View} (hview : view ∈ s.views)
    (address : Nat) :
    (s.scope.decode codec view address).result.map (·.map Shared.value) =
      codec.decode (some view.bytes) :=
  PublishScope.result_decode_of_decodeOnce (PublishScope.result_decodeOnce halike hcodec address
    hs.decoded_justified (hs.pinned_bytes_eq hview))

theorem result_decodeAny (hs : s.Sound codecs) (halike : ScopeCodec.DecodeAlike codecs)
    {codec : AnyCodec} (hcodec : codecs (.any codec)) {view : View} (hview : view ∈ s.views)
    (address : Nat) :
    (s.scope.decodeAny codec view address).result.map (·.map Shared.value) =
      codec.decode (some view.bytes) :=
  PublishScope.result_decodeOnce halike hcodec address hs.decoded_justified
    (hs.pinned_bytes_eq hview)

end Sound

/-- **The publish scope is transparent.** Whatever has happened in a session, the next call returns
what its codec returns on that value or those bytes. (Where a decoded value is placed is not the
codec's business.) -/
theorem answers_as_codec (hencode : ScopeCodec.EncodeAlike codecs)
    (hdecode : ScopeCodec.DecodeAlike codecs) (hs : s.Reachable codecs) :
    (∀ {α : Type} [Carriable α] (codec : Codec α) (value : Shared α),
      codecs (.typed codec) → value.map AnyValue.of ∈ s.values →
      (s.scope.encode codec value).result = codec.encode (some value.value)) ∧
    (∀ (codec : AnyCodec) (value : Shared AnyValue), codecs (.any codec) → value ∈ s.values →
      (s.scope.encodeAny codec value).result = codec.encode (some value.value)) ∧
    (∀ {α : Type} [Carriable α] (codec : Codec α) (view : View) (address : Nat),
      codecs (.typed codec) → view ∈ s.views →
      (s.scope.decode codec view address).result.map (·.map Shared.value) =
        codec.decode (some view.bytes)) ∧
    (∀ (codec : AnyCodec) (view : View) (address : Nat), codecs (.any codec) → view ∈ s.views →
      (s.scope.decodeAny codec view address).result.map (·.map Shared.value) =
        codec.decode (some view.bytes)) := by
  have sound := hs.sound
  refine ⟨?_, ?_, ?_, ?_⟩
  · intro α _ codec value hcodec hvalue
    exact sound.result_encode hencode hcodec hvalue
  · intro codec value hcodec hvalue
    exact sound.result_encodeAny hencode hcodec hvalue
  · intro α _ codec view address hcodec hview
    exact sound.result_decode hdecode hcodec hview address
  · intro codec view address hcodec hview
    exact sound.result_decodeAny hdecode hcodec hview address

/-- A value is encoded and dropped, and after the scope has been cleared another value lies at its
address. The typed call about the new value finds what the untyped call before it has left. -/
theorem answers_as_codec_long :
    let codecs := ScopeCodec.OfCodec Codec.long
    let value : Shared Int64 := ⟨7, 2⟩
    ∃ s : Session, s.Reachable codecs ∧ s.scope.encoded.length = 1 ∧
      (s.scope.encode Codec.long value).calls = [] ∧
      (s.scope.encode Codec.long value).result = Codec.long.encode (some 2) := by
  intro codecs value
  have typed : codecs (.typed Codec.long) := .inl rfl
  have any : codecs (.any Codec.long.erased) := .inr rfl
  have free : start.IsFree 7 := fun v h => absurd h (not_holds_start v)
  have created : Step codecs start _ := .create ⟨7, .of (1 : Int64)⟩ free
  have encoded : Reachable codecs _ :=
    (Reachable.start.step created).step (.encodeAny any List.mem_cons_self)
  -- Without handles and entries everything is as in the beginning, and the address is free again.
  have dropped : Reachable codecs start :=
    (encoded.step (.drop (List.nil_subset _) (List.Subset.refl _))).step .clear
  have reused : Step codecs start _ := .create (value.map AnyValue.of) free
  have hs : Reachable codecs _ :=
    (dropped.step reused).step (.encodeAny any List.mem_cons_self)
  exact ⟨_, hs, rfl, rfl, (answers_as_codec (ScopeCodec.encodeAlike_ofCodec Codec.long)
    (ScopeCodec.decodeAlike_ofCodec Codec.long) hs).1 Codec.long value typed List.mem_cons_self⟩

end Session

end CommandWire
