import CommandWire.Proofs.Codec.Erased
import CommandWire.Proofs.Codec.Fallback
import CommandWire.Proofs.Codec.Ordinal
import CommandWire.Registry.Builtin

/-!
# Built-in codecs know the type of their values

A codec that is put together from others reports that a value is of another type only if one of them
does. Those of fixed width and the fallback codec do not, so neither do the codecs for arguments.
-/

namespace CommandWire

namespace NoMismatch

variable {α β : Type}

theorem ok (a : α) : NoMismatch (.ok a) := nofun

/-- The failure is no mismatch either where something else has not come out because of it. -/
theorem error_of_eq {result : Except CodecError α} {failure : CodecError} (h : NoMismatch result)
    (hfailure : result = .error failure) : NoMismatch (α := β) (.error failure) := by
  intro expected hsame
  cases hsame
  exact h expected hfailure

theorem map {result : Except CodecError α} (h : NoMismatch result) (f : α → β) :
    NoMismatch (result.map f) := by
  cases result with
  | ok a => exact ok (f a)
  | error failure => exact h.error_of_eq rfl

theorem bind {result : Except CodecError α} (h : NoMismatch result) {f : α → Except CodecError β}
    (hf : ∀ a, NoMismatch (f a)) : NoMismatch (result >>= f) := by
  cases result with
  | ok a => exact hf a
  | error failure => exact h.error_of_eq rfl

theorem mapM {f : α → Except CodecError β} (hf : ∀ a, NoMismatch (f a)) (items : List α) :
    NoMismatch (items.mapM f) := by
  induction items with
  | nil => exact ok []
  | cons a items ih =>
    rw [List.mapM_cons]
    exact (hf a).bind fun b => ih.bind fun bs => ok (b :: bs)

end NoMismatch

open NoMismatch

namespace Codec

section

variable {α : Type} {name : String}

theorem ofWidth_neverMismatches {width : Nat} {toBytes : α → Bytes}
    {ofBytes : Bytes → Except CodecError (Decoded α)} (h : ∀ bytes, NoMismatch (ofBytes bytes)) :
    (ofWidth name width toBytes ofBytes).NeverMismatches where
  encode value := ok (value.map toBytes)
  decode bytes := by
    cases bytes with
    | none => exact ok Decoded.absent
    | some bytes =>
      show NoMismatch (if bytes.length = width then ofBytes bytes else .ok .skipped)
      split
      next => exact h bytes
      next => exact ok Decoded.skipped

theorem ofBytes_neverMismatches {toBytes : α → Except CodecError Bytes}
    {ofBytes : Bytes → Except CodecError α} (hto : ∀ value, NoMismatch (toBytes value))
    (hof : ∀ bytes, NoMismatch (ofBytes bytes)) :
    (Codec.ofBytes name toBytes ofBytes).NeverMismatches where
  encode value := by
    cases value with
    | none => exact ok none
    | some value => exact (hto value).map some
  decode bytes := by
    cases bytes with
    | none => exact ok Decoded.absent
    | some bytes => exact (hof bytes).map Decoded.value

end

/-! ### The fallback codec -/

section

variable {α : Type} [Carriable α]

theorem jsonBytes_noMismatch (value : α) : NoMismatch (jsonBytes value) := by
  obtain ⟨bytes, _, hbytes, _⟩ | ⟨failure, hfailure⟩ := jsonBytes_cases value
  · rw [hbytes]
    exact ok bytes
  · rw [hfailure]
    rintro _ ⟨⟩

theorem ofJsonBytes_noMismatch (bytes : Bytes) : NoMismatch (ofJsonBytes α bytes) := by
  rw [ofJsonBytes]
  cases Json.read (ValueType.of α).shape bytes with
  | ok data => exact ok _
  | error failure => rintro _ ⟨⟩

theorem fallback_neverMismatches : (Codec.fallback α).NeverMismatches :=
  ofBytes_neverMismatches jsonBytes_noMismatch ofJsonBytes_noMismatch

end

/-! ### Ordinals and texts -/

theorem ordinal_neverMismatches {α : Type} [Ordinal α] : (Codec.ordinal α).NeverMismatches := by
  refine ofWidth_neverMismatches fun bytes => NoMismatch.map ?_ _
  obtain ⟨_, a, _, _, hok⟩ | ⟨_, herror⟩ :=
    Ordinal.ofOrdinal_cases (α := α) (Ordinal.ofBytes bytes)
  · rw [hok]
    exact ok a
  · rw [herror]
    rintro _ ⟨⟩

theorem expiration_neverMismatches : expiration.NeverMismatches := by
  refine ofWidth_neverMismatches fun bytes => ?_
  have hunit := (ordinal_neverMismatches (α := TimeUnit)).decode (some (bytes.drop 8))
  rw [Expiration.ofBytes]
  split
  next failure hfailure => exact hunit.error_of_eq hfailure
  next => exact ok _
  next => rintro _ ⟨⟩

theorem string_neverMismatches : string.NeverMismatches := by
  refine ofBytes_neverMismatches (fun text => ok _) fun bytes => ?_
  rw [textOfBytes]
  split
  next text _ => exact ok text
  next => rintro _ ⟨⟩

/-! ### Tagged parts -/

section

variable {α : Type} {codec : Codec α} (h : codec.NeverMismatches)
include h

theorem NeverMismatches.encodePart (parts : TaggedParts) (tag : String) (value : Option α) :
    NoMismatch (parts.encodePart tag codec value) :=
  (h.encode value).map _

theorem NeverMismatches.decodePart (parts : TaggedParts) (tag : String) :
    NoMismatch (parts.decodePart tag codec) := by
  rw [TaggedParts.decodePart]
  split
  next => exact ok none
  next bytes _ =>
    have hdecode := h.decode (some bytes)
    split
    next failure hfailure => exact hdecode.error_of_eq hfailure
    next value _ => exact ok (some value)
    next => exact ok none
    next => rintro _ ⟨⟩

end

theorem ofTagged_neverMismatches {α : Type} {name : String}
    {toParts : α → Except CodecError TaggedParts} {ofParts : TaggedParts → Except CodecError α}
    (hto : ∀ value, NoMismatch (toParts value)) (hof : ∀ parts, NoMismatch (ofParts parts)) :
    (ofTagged name toParts ofParts).NeverMismatches := by
  refine ofBytes_neverMismatches (fun value => ?_) fun bytes => ?_
  · have hparts := hto value
    split
    next failure hfailure => exact hparts.error_of_eq hfailure
    next parts _ => exact jsonBytes_noMismatch parts
  · have hjson := ofJsonBytes_noMismatch (α := TaggedParts) bytes
    split
    next failure hfailure => exact hjson.error_of_eq hfailure
    next parts _ => exact hof parts

/-! ### Arguments -/

theorem bool_neverMismatches : bool.NeverMismatches := ofWidth_neverMismatches fun _ => ok _

theorem short_neverMismatches : short.NeverMismatches := ofWidth_neverMismatches fun _ => ok _

theorem int_neverMismatches : int.NeverMismatches := ofWidth_neverMismatches fun _ => ok _

theorem long_neverMismatches : long.NeverMismatches := ofWidth_neverMismatches fun _ => ok _

theorem double_neverMismatches : double.NeverMismatches := ofWidth_neverMismatches fun _ => ok _

theorem point_neverMismatches : point.NeverMismatches := ofWidth_neverMismatches fun _ => ok _

theorem limit_neverMismatches : limit.NeverMismatches := ofWidth_neverMismatches fun _ => ok _

theorem geoLocation_neverMismatches : geoLocation.NeverMismatches := by
  refine ofTagged_neverMismatches (fun g => ?_) fun parts => ?_
  · exact (string_neverMismatches.encodePart _ _ _).bind fun _ =>
      point_neverMismatches.encodePart _ _ _
  · exact (string_neverMismatches.decodePart _ _).bind fun _ =>
      (point_neverMismatches.decodePart _ _).bind fun _ => ok _

theorem sortOptions_neverMismatches : sortOptions.NeverMismatches := by
  refine ofTagged_neverMismatches (fun o => ?_) fun parts => ?_
  · exact (ordinal_neverMismatches.encodePart _ _ _).bind fun _ =>
      (bool_neverMismatches.encodePart _ _ _).bind fun _ =>
      (string_neverMismatches.encodePart _ _ _).bind fun _ =>
      (fallback_neverMismatches.encodePart _ _ _).bind fun _ =>
      limit_neverMismatches.encodePart _ _ _
  · exact (ordinal_neverMismatches.decodePart _ _).bind fun _ =>
      (bool_neverMismatches.decodePart _ _).bind fun _ =>
      (string_neverMismatches.decodePart _ _).bind fun _ =>
      (fallback_neverMismatches.decodePart _ _).bind fun _ =>
      (limit_neverMismatches.decodePart _ _).bind fun _ => ok _

theorem weightedKeys_neverMismatches : weightedKeys.NeverMismatches := by
  have hweight : ∀ entry, NoMismatch (WeightedKeys.weightOfBytes entry) := by
    rintro ⟨key, bytes⟩
    rw [WeightedKeys.weightOfBytes]
    split
    next => exact ok _
    next => rintro _ ⟨⟩
  refine ofTagged_neverMismatches (fun w => ?_) fun parts => ?_
  · exact (fallback_neverMismatches.encodePart _ _ _).bind fun _ =>
      ordinal_neverMismatches.encodePart _ _ _
  · exact (fallback_neverMismatches.decodePart _ _).bind fun _ =>
      (NoMismatch.mapM hweight _).bind fun _ =>
      (ordinal_neverMismatches.decodePart _ _).bind fun _ => ok _

theorem range_neverMismatches {α : Type} {values : Codec α} (h : values.NeverMismatches) :
    (range values).NeverMismatches := by
  have hto : ∀ (b : Bound α) tags parts, NoMismatch (b.encodeParts tags values parts) := by
    intro b tags parts
    rw [Bound.encodeParts]
    split
    next => exact ok parts
    next value _ =>
      exact (h.encodePart _ _ _).bind fun _ => bool_neverMismatches.encodePart _ _ _
  have hof : ∀ tags parts, NoMismatch (Bound.decodeParts tags values parts) := by
    intro tags parts
    refine (h.decodePart parts tags.value).bind fun value => ?_
    cases value with
    | none => exact ok Bound.unbounded
    | some value => exact (bool_neverMismatches.decodePart _ _).bind fun _ => ok _
  refine ofTagged_neverMismatches (fun r => ?_) fun parts => ?_
  · exact (hto _ _ _).bind fun _ => hto _ _ _
  · exact (hof _ _).bind fun _ => (hof _ _).bind fun _ => ok _

end Codec

end CommandWire
