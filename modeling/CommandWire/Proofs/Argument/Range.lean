import CommandWire.Argument.Range
import CommandWire.Proofs.Codec.Primitive
import CommandWire.Proofs.Codec.Tagged

/-!
# Ranges of anything

The codec for ranges does with a range what the codec for values does with its ends. If this one
carries the ends to some values, the range is carried to the range of those, where only the flag of
an open side is forgotten (`Codec.range_carries`).

Equal need not be identical: ranges that differ in such a flag are equal. So a codec is faithful up
to an equality if it decodes an equal value (`Codec.IsFaithfulUpTo`). A codec for ranges is faithful
up to the equality of ranges if that for values is up to theirs, and hence so is a codec for ranges
of ranges of any depth (`Codec.range_lifts_faithfulness`).
-/

namespace CommandWire

/-- The bound without a flag that is of no account. -/
def Bound.normalized {α : Type} (b : Bound α) : Bound α := ⟨b.value, b.isInclusive⟩

/-- The range without flags that are of no account. -/
def Range.normalized {α : Type} (r : Range α) : Range α := ⟨r.lower.normalized, r.upper.normalized⟩

section Range

variable {α : Type} {values : Codec α}

/-! ### Parts -/

/-- The codec carries one end to another, or both are missing. -/
abbrev Codec.CarriesEnd (values : Codec α) (value back : Option α) : Prop :=
  Option.Rel (fun value back => ∃ bytes, values.Carries value bytes back) value back

theorem Codec.CarriesEnd.refl {value : Option α}
    (h : ∀ v ∈ value, ∃ bytes, values.Carries v bytes v) : values.CarriesEnd value value := by
  cases value with
  | none => exact .none
  | some v => exact .some (h v rfl)

/-- The parts of a bound are two, or none if the side is open. -/
theorem Bound.exists_parts {b : Bound α} {back : Option α} (h : values.CarriesEnd b.value back) :
    ∃ value flag : Option Bytes, value.isSome = b.isBounded ∧ flag.isSome = b.isBounded ∧
      (∀ (parts : TaggedParts) (tags : BoundTags), b.encodeParts tags values parts =
        .ok ((parts.put tags.value value).put tags.inclusive flag)) ∧
      ∀ (parts : TaggedParts) (tags : BoundTags), parts.get? tags.value = value →
        parts.get? tags.inclusive = flag →
        Bound.decodeParts tags values parts = .ok ⟨back, b.isInclusive⟩ := by
  obtain ⟨value, flag⟩ := b
  cases h with
  | none =>
    refine ⟨none, none, rfl, rfl, fun parts tags => rfl, fun parts tags hvalue _ => ?_⟩
    have hnone : parts.decodePart tags.value values = .ok none := by
      rw [TaggedParts.decodePart, hvalue]
    rw [Bound.decodeParts, hnone, Bound.isInclusive, Option.isNone_none, Bool.or_true]
    rfl
  | @some value back hend =>
    let b : Bound α := ⟨some value, flag⟩
    obtain ⟨bytes, hcarries⟩ := hend
    have hflag := Codec.bool_carries b.isInclusive
    refine ⟨some bytes, some (boolBytes b.isInclusive), rfl, rfl, fun parts tags => ?_,
      fun parts tags hv hf => ?_⟩
    · show (parts.encodePart tags.value values (some value) >>= _) = _
      rw [TaggedParts.encodePart_of_carries hcarries]
      exact TaggedParts.encodePart_of_carries hflag _ _
    · rw [Bound.decodeParts, TaggedParts.decodePart_of_carries hcarries hv]
      show (parts.decodePart tags.inclusive Codec.bool >>= _) = _
      rw [TaggedParts.decodePart_of_carries hflag hf]
      show Except.ok (Bound.of (some back) b.isInclusive) = _
      rw [Bound.of, Option.isNone_some, Bool.or_false]

/-- The tag is one of a side. -/
def BoundTags.Has (tags : BoundTags) (tag : String) : Prop :=
  tag = tags.value ∨ tag = tags.inclusive

/-- The tags that are written for a range: both of each bounded side, and no others. -/
def Range.WritesTag (r : Range α) (tag : String) : Prop :=
  r.lower.isBounded ∧ lowerTags.Has tag ∨ r.upper.isBounded ∧ upperTags.Has tag

/-- If the codec of the values carries the ends of a range to some values, the range is carried to
the range of these, up to the flags of its open sides. -/
theorem Codec.range_carries {r : Range α} {lower upper : Option α}
    (hlower : values.CarriesEnd r.lower.value lower)
    (hupper : values.CarriesEnd r.upper.value upper) :
    ∃ (parts : TaggedParts) (bytes : Bytes), bytes ≠ [] ∧ jsonBytes parts = .ok bytes ∧
      (∀ tag, (parts.get? tag).isSome ↔ r.WritesTag tag) ∧
      (Codec.range values).Carries r bytes
        ⟨⟨lower, r.lower.isInclusive⟩, ⟨upper, r.upper.isInclusive⟩⟩ := by
  obtain ⟨lvalue, lflag, hlvalue, hlflag, hlto, hlof⟩ := Bound.exists_parts hlower
  obtain ⟨uvalue, uflag, huvalue, huflag, huto, huof⟩ := Bound.exists_parts hupper
  let parts : TaggedParts :=
    (((TaggedParts.put .empty lowerTags.value lvalue).put lowerTags.inclusive lflag).put
      upperTags.value uvalue).put upperTags.inclusive uflag
  have hto : r.toParts values = .ok parts := by
    rw [Range.toParts, hlto]
    exact huto _ _
  have hof : Range.ofParts values parts =
      .ok ⟨⟨lower, r.lower.isInclusive⟩, ⟨upper, r.upper.isInclusive⟩⟩ := by
    rw [Range.ofParts, hlof parts, huof parts]
    · rfl
    all_goals simp [parts, lowerTags, upperTags]
  obtain ⟨bytes, hsome, hwrite, hread⟩ := ofJsonBytes_of_readsBack parts.readsBack
  refine ⟨parts, bytes, hsome, hwrite, fun tag => ?_, ofTagged_carries_text hto hof hwrite hread⟩
  simp only [parts, TaggedParts.isSome_get?_put, hlvalue, hlflag, huvalue, huflag,
    TaggedParts.get?_empty, Range.WritesTag, BoundTags.Has]
  grind

/-! ### Decoded ranges -/

theorem Bound.normalized_of_decodeParts {tags : BoundTags} {parts : TaggedParts} {b : Bound α}
    (h : Bound.decodeParts tags values parts = .ok b) : b.normalized = b := by
  rw [Bound.decodeParts] at h
  cases hvalue : parts.decodePart tags.value values with
  | error failure =>
    rw [hvalue] at h
    cases h
  | ok value =>
    rw [hvalue] at h
    cases value with
    | none =>
      cases h
      rfl
    | some value =>
      replace h : (parts.decodePart tags.inclusive Codec.bool >>= fun inclusive =>
        Except.ok (Bound.of (some value) (inclusive.getD true))) = .ok b := h
      cases hflag : parts.decodePart tags.inclusive Codec.bool with
      | error failure =>
        rw [hflag] at h
        cases h
      | ok flag =>
        rw [hflag] at h
        cases h
        rw [Bound.normalized, Bound.isInclusive, Bound.of, Option.isNone_some, Bool.or_false,
          Bool.or_false]

/-- What is decoded has no such flags. -/
theorem Range.normalized_of_ofParts {parts : TaggedParts} {r : Range α}
    (h : Range.ofParts values parts = .ok r) : r.normalized = r := by
  rw [Range.ofParts] at h
  cases hlower : Bound.decodeParts lowerTags values parts with
  | error failure =>
    rw [hlower] at h
    cases h
  | ok lower =>
    rw [hlower] at h
    replace h : (Bound.decodeParts upperTags values parts >>= fun upper =>
      Except.ok (Range.mk lower upper)) = .ok r := h
    cases hupper : Bound.decodeParts upperTags values parts with
    | error failure =>
      rw [hupper] at h
      cases h
    | ok upper =>
      rw [hupper] at h
      cases h
      rw [Range.normalized, Bound.normalized_of_decodeParts hlower,
        Bound.normalized_of_decodeParts hupper]

theorem Codec.range_relays (h : values.IsFaithful) : (Codec.range values).Relays := by
  intro bytes r hdecode
  obtain ⟨_, again, hsome, _, _, hcarries⟩ := Codec.range_carries (r := r)
    (CarriesEnd.refl fun value _ => h value) (CarriesEnd.refl fun value _ => h value)
  replace hcarries : (Codec.range values).Carries r again r.normalized := hcarries
  obtain ⟨parts, hparts⟩ := Codec.ofParts_of_decode hdecode
  rw [Range.normalized_of_ofParts hparts] at hcarries
  exact ⟨again, hsome, hcarries⟩

/-! ### Equal ranges -/

/-- The bounds have equal ends or none, and each is bounded or inclusive if the other one is. -/
structure Bound.IsLike (sameValue : α → α → Bool) (b c : Bound α) : Prop where
  value_rel : Option.Rel (fun x y => sameValue x y = true) b.value c.value
  isBounded_eq : b.isBounded = c.isBounded
  isInclusive_eq : b.isInclusive = c.isInclusive

theorem Bound.IsLike.same {sameValue : α → α → Bool} {b c : Bound α} (h : b.IsLike sameValue c) :
    b.same sameValue c = true := by
  obtain ⟨x, xflag⟩ := b
  obtain ⟨y, yflag⟩ := c
  obtain ⟨hvalue, _, hinclusive⟩ := h
  rw [Bound.same, hinclusive, beq_self_eq_true, Bool.true_and]
  cases hvalue with
  | none => rfl
  | some hsame => exact hsame

/-- What a bound is decoded as is like it if the ends are equal. -/
theorem Bound.isLike_of_rel {sameValue : α → α → Bool} {b : Bound α} {back : Option α}
    (h : Option.Rel (fun x y => sameValue x y = true) back b.value) :
    Bound.IsLike sameValue ⟨back, b.isInclusive⟩ b := by
  obtain ⟨value, flag⟩ := b
  refine ⟨h, ?_, ?_⟩
  · cases h <;> rfl
  · rw [Bound.isInclusive, Bound.isInclusive]
    cases h <;> simp

/-! ### Faithful codecs -/

/-- What the codec encodes without an error it encodes as some bytes, and it decodes them to an
equal value. -/
def Codec.IsFaithfulUpTo (codec : Codec α) (sameValue : α → α → Bool) : Prop :=
  ∀ value bytes?, codec.encode (some value) = .ok bytes? →
    ∃ bytes back, codec.Carries value bytes back ∧ sameValue back value = true

/-- A codec that carries every value to itself is faithful up to identity. -/
theorem Codec.IsFaithful.upTo [DecidableEq α] {codec : Codec α} (h : codec.IsFaithful) :
    codec.IsFaithfulUpTo (· == ·) := by
  intro value _ _
  obtain ⟨bytes, hcarries⟩ := h value
  exact ⟨bytes, value, hcarries, BEq.rfl⟩

variable {sameValue : α → α → Bool}

/-- Either the codec fails on an end, or it carries the end to an equal one. -/
theorem Codec.IsFaithfulUpTo.end_cases (h : values.IsFaithfulUpTo sameValue) (value : Option α) :
    (∃ v failure, v ∈ value ∧ values.encode (some v) = .error failure) ∨
    ∃ back, values.CarriesEnd value back ∧
      Option.Rel (fun x y => sameValue x y = true) back value := by
  cases value with
  | none => exact .inr ⟨none, .none, .none⟩
  | some v =>
    cases hencode : values.encode (some v) with
    | error failure => exact .inl ⟨v, failure, rfl, hencode⟩
    | ok bytes? =>
      obtain ⟨bytes, back, hcarries, hsame⟩ := h v bytes? hencode
      exact .inr ⟨some back, .some ⟨bytes, hcarries⟩, .some hsame⟩

/-- The value is an end of the range. -/
def Range.HasEnd (r : Range α) (value : α) : Prop := value ∈ r.lower.value ∨ value ∈ r.upper.value

theorem Bound.encodeParts_of_error {b : Bound α} {value : α} {failure : CodecError}
    (hvalue : value ∈ b.value) (h : values.encode (some value) = .error failure)
    (tags : BoundTags) (parts : TaggedParts) :
    b.encodeParts tags values parts = .error failure := by
  have herror : parts.encodePart tags.value values (some value) = .error failure := by
    rw [TaggedParts.encodePart, h]
    rfl
  rw [Bound.encodeParts, Option.mem_def.1 hvalue]
  show (parts.encodePart tags.value values (some value) >>= _) = _
  rw [herror]
  rfl

/-- Either the codec for values fails on an end, and that for ranges with it, or it carries both
ends to equal ones. -/
theorem Codec.IsFaithfulUpTo.range_cases (h : values.IsFaithfulUpTo sameValue) (r : Range α) :
    (∃ value failure, r.HasEnd value ∧ values.encode (some value) = .error failure ∧
      (Codec.range values).encode (some r) = .error failure) ∨
    ∃ lower upper,
      (values.CarriesEnd r.lower.value lower ∧
        Option.Rel (fun x y => sameValue x y = true) lower r.lower.value) ∧
      (values.CarriesEnd r.upper.value upper ∧
        Option.Rel (fun x y => sameValue x y = true) upper r.upper.value) := by
  have hfails : ∀ failure, r.toParts values = .error failure →
      (Codec.range values).encode (some r) = .error failure := by
    intro failure hparts
    show Except.map some (match r.toParts values with | _ => _) = _
    rw [hparts]
    rfl
  obtain ⟨value, failure, hvalue, herror⟩ | ⟨lower, hlower⟩ := h.end_cases r.lower.value
  · refine .inl ⟨value, failure, .inl hvalue, herror, hfails failure ?_⟩
    rw [Range.toParts, Bound.encodeParts_of_error hvalue herror]
    rfl
  · obtain ⟨value, failure, hvalue, herror⟩ | ⟨upper, hupper⟩ := h.end_cases r.upper.value
    · -- The lower end has been written when the upper one fails.
      obtain ⟨_, _, _, _, hlto, _⟩ := Bound.exists_parts hlower.1
      refine .inl ⟨value, failure, .inr hvalue, herror, hfails failure ?_⟩
      rw [Range.toParts, hlto]
      exact Bound.encodeParts_of_error hvalue herror _ _
    · exact .inr ⟨lower, upper, hlower, hupper⟩

theorem Codec.CarriesEnd.exists_encode {value back : Option α} (h : values.CarriesEnd value back) :
    ∀ v ∈ value, ∃ bytes, values.encode (some v) = .ok (some bytes) := by
  intro v hv
  cases h with
  | none => cases hv
  | some hend =>
    obtain ⟨bytes, hcarries⟩ := hend
    cases hv
    exact ⟨bytes, hcarries.encode_eq⟩

/-- An encoded range has an encoding for each of its ends, under the tags of its bounded sides, and
is decoded to an equal range. -/
structure Codec.EncodesRange (values : Codec α) (sameValue : α → α → Bool) (r : Range α)
    (parts : TaggedParts) (bytes : Bytes) (back : Range α) : Prop where
  exists_encode : ∀ value, r.HasEnd value → ∃ part, values.encode (some value) = .ok (some part)
  writes_parts : jsonBytes parts = .ok bytes
  tags : ∀ tag, (parts.get? tag).isSome ↔ r.WritesTag tag
  encode_eq : (Codec.range values).encode (some r) = .ok (some bytes)
  decode_eq : (Codec.range values).decode (some bytes) = .ok (.value back)
  same : back.same sameValue r = true
  lower_like : back.lower.IsLike sameValue r.lower
  upper_like : back.upper.IsLike sameValue r.upper

theorem Codec.IsFaithfulUpTo.encodesRange_or (h : values.IsFaithfulUpTo sameValue) (r : Range α) :
    (∃ value failure, r.HasEnd value ∧ values.encode (some value) = .error failure ∧
      (Codec.range values).encode (some r) = .error failure) ∨
    ∃ parts bytes back, values.EncodesRange sameValue r parts bytes back := by
  obtain herror | ⟨lower, upper, ⟨hlower, hlsame⟩, ⟨hupper, husame⟩⟩ := h.range_cases r
  · exact .inl herror
  · obtain ⟨parts, bytes, _, hwrite, htags, hcarries⟩ := Codec.range_carries hlower hupper
    have hllike := Bound.isLike_of_rel hlsame
    have hulike := Bound.isLike_of_rel husame
    exact .inr ⟨parts, bytes, _, {
      exists_encode := by
        rintro value (hvalue | hvalue)
        · exact hlower.exists_encode value hvalue
        · exact hupper.exists_encode value hvalue
      writes_parts := hwrite
      tags := htags
      encode_eq := hcarries.encode_eq
      decode_eq := hcarries.decode_eq
      same := by rw [Range.same, hllike.same, hulike.same, Bool.and_self]
      lower_like := hllike
      upper_like := hulike }⟩

/-- So the codec for ranges is faithful up to the equality of ranges. -/
theorem Codec.IsFaithfulUpTo.range (h : values.IsFaithfulUpTo sameValue) :
    (Codec.range values).IsFaithfulUpTo (Range.same sameValue) := by
  intro r bytes? hencode
  obtain ⟨_, failure, _, _, herror⟩ | ⟨_, bytes, back, hrange⟩ := h.encodesRange_or r
  · cases herror.symm.trans hencode
  · exact ⟨bytes, back, ⟨hrange.encode_eq, hrange.decode_eq⟩, hrange.same⟩

end Range

/-! ### Ranges of ranges -/

/-- Ranges of ranges, and so on, of values, as deep as the number says. -/
def Range.Nested (α : Type) : (depth : Nat) → Type
  | 0 => α
  | depth + 1 => Range (Range.Nested α depth)

namespace Range.Nested

variable {α : Type}

/-- The equality of such ranges, given when values are. -/
def same (sameValue : α → α → Bool) : (depth : Nat) → (r s : Range.Nested α depth) → Bool
  | 0 => sameValue
  | depth + 1 => Range.same (same sameValue depth)

/-- The codec for such ranges, given one for the values. -/
def codec (values : Codec α) : (depth : Nat) → Codec (Range.Nested α depth)
  | 0 => values
  | depth + 1 => Codec.range (codec values depth)

/-- Faithfulness goes through all depths. -/
theorem codec_isFaithfulUpTo {values : Codec α} {sameValue : α → α → Bool}
    (h : values.IsFaithfulUpTo sameValue) (depth : Nat) :
    (codec values depth).IsFaithfulUpTo (same sameValue depth) := by
  induction depth with
  | zero => exact h
  | succ depth ih => exact ih.range

end Range.Nested

/-- **The codec for ranges lifts faithfulness.** On every range whose ends the codec for values
encodes it writes exactly the tags of the bounded sides, and decodes an equal range, whatever the
flags of the open sides; on every other it fails as the codec for values does on an end. The same
goes for ranges of ranges, of any depth. -/
theorem Codec.range_lifts_faithfulness {α : Type} {values : Codec α} {sameValue : α → α → Bool}
    (h : values.IsFaithfulUpTo sameValue) (depth : Nat) :
    (Range.Nested.codec values depth).IsFaithfulUpTo (Range.Nested.same sameValue depth) ∧
    ∀ r : Range (Range.Nested α depth),
      (∃ value failure, r.HasEnd value ∧
        (Range.Nested.codec values depth).encode (some value) = .error failure ∧
        (Codec.range (Range.Nested.codec values depth)).encode (some r) = .error failure) ∨
      ∃ parts bytes back, (Range.Nested.codec values depth).EncodesRange
        (Range.Nested.same sameValue depth) r parts bytes back := by
  have hdepth := Range.Nested.codec_isFaithfulUpTo h depth
  exact ⟨hdepth, hdepth.encodesRange_or⟩

/-- A range of ranges, with a NaN and with open sides whose flags are not set. -/
theorem Codec.range_lifts_faithfulness_nan :
    let nan : Double := ⟨0x7ff8000000000001⟩
    let inner : Range Double := ⟨.exclusive nan, ⟨none, false⟩⟩
    let r : Range (Range Double) := ⟨⟨none, false⟩, .inclusive inner⟩
    Codec.double.IsFaithfulUpTo (· == ·) ∧
      ∃ parts bytes back, (Codec.range Codec.double).EncodesRange
        (Range.same (· == ·)) r parts bytes back := by
  intro nan inner r
  have hdouble : Codec.double.IsFaithfulUpTo (· == ·) :=
    Codec.IsFaithful.upTo fun x => ⟨_, Codec.double_carries x⟩
  refine ⟨hdouble, ?_⟩
  obtain ⟨value, failure, hend, herror, _⟩ | hrange := (range_lifts_faithfulness hdouble 1).2 r
  · -- The end is the inner range, whose only end is a double, and no double is refused.
    obtain rfl : inner = value := by
      rcases hend with hend | hend <;> cases hend
      rfl
    obtain ⟨_, _, _, hdoubleError, _⟩ | ⟨_, _, _, hinner⟩ :=
      (range_lifts_faithfulness hdouble 0).2 inner
    · cases hdoubleError
    · cases herror.symm.trans hinner.encode_eq
  · exact hrange

end CommandWire
