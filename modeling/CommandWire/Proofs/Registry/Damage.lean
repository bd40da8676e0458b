import CommandWire.Proofs.Argument.Exact
import CommandWire.Proofs.Codec.ExactOrdinal
import CommandWire.Proofs.Codec.FaithfulFallback
import CommandWire.Proofs.Json.Cut
import CommandWire.Proofs.Registry.Builtin

/-!
# Damaged encodings of the built-in codecs

No built-in codec reads an encoding that has lost its end, or that something has been put behind, as
a value or as a missing one. A codec of fixed width passes over bytes that are too few or too many
(`Codec.HasWidth.withstandsDamage`). Tagged parts are the text of an object, which is unfinished
until its last brace and takes nothing behind it but blanks, so the fallback codec below refuses all
others (`Codec.ofTagged_withstandsDamage`). Blanks are read over and change nothing.
-/

namespace CommandWire

namespace AnyCodec

/-- The codec does not apply to an encoding without its end, nor to one with more behind it. -/
structure SkipsDamage (codec : AnyCodec) : Prop where
  cut : ∀ value cut lost, codec.encode (some value) = .ok (some (cut ++ lost)) → lost ≠ [] →
    codec.decode (some cut) = .ok .skipped
  padded : ∀ value bytes added, codec.encode (some value) = .ok (some bytes) → added ≠ [] →
    codec.decode (some (bytes ++ added)) = .ok .skipped

/-- To decode an encoding without its end, or one with more than blanks behind it, is an error of the
fallback codec; one with blanks behind it is decoded as without them. -/
structure RefusesDamage (codec : AnyCodec) : Prop where
  cut : ∀ value cut lost, codec.encode (some value) = .ok (some (cut ++ lost)) → lost ≠ [] →
    codec.decode (some cut) = .error (.fallback (ValueType.of TaggedParts).name .decode .unfinished)
  padded : ∀ value bytes added, codec.encode (some value) = .ok (some bytes) →
    (∃ b ∈ added, Json.isBlank b = false) → codec.decode (some (bytes ++ added)) =
      .error (.fallback (ValueType.of TaggedParts).name .decode .malformed)
  blanks : ∀ value bytes added, codec.encode (some value) = .ok (some bytes) →
    (∀ b ∈ added, Json.isBlank b = true) →
    codec.decode (some (bytes ++ added)) = codec.decode (some bytes)

/-- Every value of the target type has an encoding, which is decoded to a value, and no damage to it
is taken for one: a codec that declares its width passes over the damage, and any other one refuses
it. -/
structure WithstandsDamage (codec : AnyCodec) : Prop where
  carries : ∀ value : AnyValue, value.type = codec.target →
    ∃ bytes back, codec.encode (some value) = .ok (some bytes) ∧
      codec.decode (some bytes) = .ok (.value back)
  skips : codec.fixedWidth ≠ none → codec.SkipsDamage
  refuses : codec.fixedWidth = none → codec.RefusesDamage

end AnyCodec

namespace TaggedParts

/-! ### The text of tagged parts -/

/-- The text is an object of lists of bytes, which notices every cut. -/
theorem ofJsonBytes_of_cut {parts : TaggedParts} {cut lost : Bytes}
    (h : Carriable.text parts = cut ++ lost) (hlost : lost ≠ []) :
    ofJsonBytes TaggedParts cut =
      .error (.fallback (ValueType.of TaggedParts).name .decode .unfinished) := by
  have hread : Json.read (ValueType.of TaggedParts).shape cut = .error .unfinished :=
    Json.read_of_noticesCuts (Json.map_integers_noticesCuts (Carriable.toData parts) 125) h hlost
  rw [ofJsonBytes, hread]

theorem ofJsonBytes_text_append (parts : TaggedParts) (added : Bytes) :
    ofJsonBytes TaggedParts (Carriable.text parts ++ added) =
      if added.all Json.isBlank then .ok parts
      else .error (.fallback (ValueType.of TaggedParts).name .decode .malformed) := by
  have hread : Json.read (ValueType.of TaggedParts).shape (Carriable.text parts ++ added) = _ :=
    Json.read_map_append parts.readsBack added
  rw [ofJsonBytes, hread]
  cases added.all Json.isBlank with
  | true => exact congrArg Except.ok (Carriable.ofData_toData parts)
  | false => rfl

end TaggedParts

namespace Codec

theorem HasWidth.length_of_encode {α : Type} {codec : Codec α} {width : Nat}
    (h : codec.HasWidth width) {value : α} {bytes : Bytes}
    (hencode : codec.encode (some value) = .ok (some bytes)) : bytes.length = width := by
  obtain ⟨written, hlength, hcarries⟩ := h.exists_carries value
  cases hcarries.encode_eq.symm.trans hencode
  exact hlength

/-! ### Codecs of tagged parts -/

section ofTagged

variable {α : Type} {name : String} {toParts : α → Except CodecError TaggedParts}
  {ofParts : TaggedParts → Except CodecError α}

theorem exists_text_of_encode {value : α} {bytes : Bytes}
    (h : (ofTagged name toParts ofParts).encode (some value) = .ok (some bytes)) :
    ∃ parts : TaggedParts, bytes = Carriable.text parts := by
  cases hparts : toParts value with
  | error failure =>
    have hencode : (ofTagged name toParts ofParts).encode (some value) = .error failure := by
      show Except.map some (match toParts value with | _ => _) = _
      rw [hparts]
      rfl
    cases hencode.symm.trans h
  | ok parts =>
    have hencode : (ofTagged name toParts ofParts).encode (some value) =
        (jsonBytes parts).map some := by
      show Except.map some (match toParts value with | _ => _) = _
      rw [hparts]
    rw [hencode] at h
    cases htext : jsonBytes parts with
    | error failure =>
      rw [htext] at h
      cases h
    | ok text =>
      rw [htext] at h
      cases h
      exact ⟨parts, eq_text_of_jsonBytes htext⟩

/-- The bytes matter only for the parts that are read from them. -/
theorem decode_ofTagged_congr {bytes others : Bytes}
    (h : ofJsonBytes TaggedParts bytes = ofJsonBytes TaggedParts others) :
    (ofTagged name toParts ofParts).decode (some bytes) =
      (ofTagged name toParts ofParts).decode (some others) := by
  show Except.map _ (match ofJsonBytes TaggedParts bytes with | _ => _) = _
  rw [h]
  rfl

theorem decode_ofTagged_of_error {bytes : Bytes} {failure : CodecError}
    (h : ofJsonBytes TaggedParts bytes = .error failure) :
    (ofTagged name toParts ofParts).decode (some bytes) = .error failure := by
  show Except.map _ (match ofJsonBytes TaggedParts bytes with | _ => _) = _
  rw [h]
  rfl

end ofTagged

theorem exists_carries_range {α : Type} {values : Codec α} (h : values.IsFaithful) (r : Range α) :
    ∃ back bytes, (range values).Carries r bytes back := by
  have hends (value : Option α) : values.CarriesEnd value value := .refl fun v _ => h v
  obtain ⟨_, bytes, _, _, _, hcarries⟩ := range_carries (hends r.lower.value) (hends r.upper.value)
  exact ⟨_, bytes, hcarries⟩

/-! ### Values that carry their type -/

section Erased

variable {α : Type} [Carriable α] {codec : Codec α}

theorem exists_of_encode_erased {any : AnyValue} {bytes : Bytes}
    (h : codec.erased.encode (some any) = .ok (some bytes)) :
    ∃ value, codec.encode (some value) = .ok (some bytes) := by
  rw [erased] at h
  dsimp only at h
  split at h
  next value _ => exact ⟨value, h⟩
  next => cases h

theorem erased_carries (h : ∀ value, ∃ back bytes, codec.Carries value bytes back)
    {any : AnyValue} (hany : any.type = codec.erased.target) :
    ∃ bytes back, codec.erased.encode (some any) = .ok (some bytes) ∧
      codec.erased.decode (some bytes) = .ok (.value back) := by
  obtain ⟨value, rfl⟩ := AnyValue.exists_eq_of hany
  obtain ⟨back, bytes, hcarries⟩ := h value
  exact ⟨bytes, .of back, (codec.encode_erased_of value).trans hcarries.encode_eq,
    decode_erased_of_eq_ok hcarries.decode_eq⟩

theorem decode_erased_of_skipped {bytes : Option Bytes} (h : codec.decode bytes = .ok .skipped) :
    codec.erased.decode bytes = .ok .skipped := by
  show (codec.decode bytes).map _ = _
  rw [h]
  rfl

theorem decode_erased_of_error {bytes : Option Bytes} {failure : CodecError}
    (h : codec.decode bytes = .error failure) : codec.erased.decode bytes = .error failure := by
  show (codec.decode bytes).map _ = _
  rw [h]
  rfl

/-- An encoding that has become shorter or longer does not have the width. -/
theorem HasWidth.withstandsDamage {width : Nat} (h : codec.HasWidth width) :
    codec.erased.WithstandsDamage where
  carries _ hany := by
    refine erased_carries (fun value => ?_) hany
    obtain ⟨bytes, _, hcarries⟩ := h.exists_carries value
    exact ⟨value, bytes, hcarries⟩
  skips _ :=
    { cut := by
        intro any cut lost hencode hlost
        obtain ⟨value, hvalue⟩ := exists_of_encode_erased hencode
        have hlength := h.length_of_encode hvalue
        have hpos := List.length_pos_iff.2 hlost
        rw [List.length_append] at hlength
        exact decode_erased_of_skipped ((h.skipped_iff cut).2 (by omega))
      padded := by
        intro any bytes added hencode hadded
        obtain ⟨value, hvalue⟩ := exists_of_encode_erased hencode
        have hlength := h.length_of_encode hvalue
        have hpos := List.length_pos_iff.2 hadded
        refine decode_erased_of_skipped ((h.skipped_iff _).2 ?_)
        rw [List.length_append]
        omega }
  refuses hnone := by
    have hsome : codec.erased.fixedWidth = some width := h.fixedWidth_eq
    cases hsome.symm.trans hnone

/-- The text of the parts is refused or read as before, and so is the value. -/
theorem ofTagged_withstandsDamage {name : String} {toParts : α → Except CodecError TaggedParts}
    {ofParts : TaggedParts → Except CodecError α}
    (h : ∀ value, ∃ back bytes, (ofTagged name toParts ofParts).Carries value bytes back) :
    (ofTagged name toParts ofParts).erased.WithstandsDamage where
  carries _ hany := erased_carries h hany
  skips hsome := absurd rfl hsome
  refuses _ :=
    { cut := by
        intro any cut lost hencode hlost
        obtain ⟨value, hvalue⟩ := exists_of_encode_erased hencode
        obtain ⟨parts, hparts⟩ := exists_text_of_encode hvalue
        exact decode_erased_of_error
          (decode_ofTagged_of_error (TaggedParts.ofJsonBytes_of_cut hparts.symm hlost))
      padded := by
        intro any bytes added hencode hadded
        obtain ⟨value, hvalue⟩ := exists_of_encode_erased hencode
        obtain ⟨parts, rfl⟩ := exists_text_of_encode hvalue
        have hblank : added.all Json.isBlank = false := by
          rw [List.all_eq_false]
          obtain ⟨b, hb, hblank⟩ := hadded
          exact ⟨b, hb, Bool.eq_false_iff.1 hblank⟩
        refine decode_erased_of_error (decode_ofTagged_of_error ?_)
        rw [TaggedParts.ofJsonBytes_text_append, hblank]
        rfl
      blanks := by
        intro any bytes added hencode hblank
        obtain ⟨value, hvalue⟩ := exists_of_encode_erased hencode
        obtain ⟨parts, rfl⟩ := exists_text_of_encode hvalue
        have hread := TaggedParts.ofJsonBytes_text_append parts added
        rw [if_pos (List.all_eq_true.2 hblank)] at hread
        have hwhole := TaggedParts.ofJsonBytes_text_append parts []
        rw [List.append_nil, if_pos List.all_nil] at hwhole
        exact congrArg (Except.map _) (decode_ofTagged_congr (hread.trans hwhole.symm)) }

end Erased

end Codec

namespace Registry

/-! ### Built-in codecs -/

open Codec in
theorem builtinFactories_withstandDamage :
    ∀ f ∈ builtinFactories, (f.build ()).WithstandsDamage := by
  simp only [builtinFactories, List.forall_mem_cons]
  refine ⟨?_, ?_, ?_, ?_, ?_, ?_, ?_, ?_, ?_, ?_, ?_, ?_, ?_, ?_, ?_, ?_, ?_,
    List.forall_mem_nil _⟩
  · exact bool_hasWidth.withstandsDamage
  · exact short_hasWidth.withstandsDamage
  · exact int_hasWidth.withstandsDamage
  · exact long_hasWidth.withstandsDamage
  · exact double_hasWidth.withstandsDamage
  · exact (ordinal_hasWidth (α := TimeUnit)).withstandsDamage
  · exact (ordinal_hasWidth (α := SortOrder)).withstandsDamage
  · exact (ordinal_hasWidth (α := Aggregate)).withstandsDamage
  · exact point_hasWidth.withstandsDamage
  · exact limit_hasWidth.withstandsDamage
  · exact expiration_hasWidth.withstandsDamage
  · exact ofTagged_withstandsDamage fun g => ⟨g, (geoLocation_carries g).imp fun _ => And.right⟩
  · exact ofTagged_withstandsDamage (exists_carries_range fun x => ⟨_, double_carries x⟩)
  · exact ofTagged_withstandsDamage (exists_carries_range fun n => ⟨_, long_carries n⟩)
  · exact ofTagged_withstandsDamage (exists_carries_range string_isFaithful)
  · exact ofTagged_withstandsDamage fun o => ⟨o, (sortOptions_carries o).imp fun _ => And.right⟩
  · exact ofTagged_withstandsDamage fun w => ⟨w, (weightedKeys_carries w).imp fun _ => And.right⟩

/-- **No built-in codec reads a damaged encoding.** Every value of the type that a codec is
registered for has an encoding. Without its end, or with more behind it, the encoding is skipped by
the codecs that declare a width, those of enumerations included, and refused by the others, which are
the ones for named places, ranges, sort options and weighted keys. Only blanks may stand behind an
encoding of the latter kind, and with them it is decoded as before. -/
theorem builtin_withstand_damage :
    (∀ e ∈ builtin.entries, e.codec.target = e.type ∧ e.codec.WithstandsDamage) ∧
    builtin.entries.map (fun e => (e.type, e.codec.fixedWidth)) =
      [ (.of Bool, some 1), (.of Int16, some 2), (.of Int32, some 4), (.of Int64, some 8)
      , (.of Double, some 8), (.of TimeUnit, some 1), (.of SortOrder, some 1)
      , (.of Aggregate, some 1), (.of Point, some 16), (.of Limit, some 16)
      , (.of Expiration, some 9), (.of GeoLocation, none), (.of (Range Double), none)
      , (.of (Range Int64), none), (.of (Range String), none), (.of SortOptions, none)
      , (.of WeightedKeys, none) ] := by
  have hempty : ∀ e ∈ empty.entries, e.codec.WithstandsDamage := by nofun
  have hall := forall_codec_install hempty builtinFactories builtinFactories_withstandDamage
  have htarget : ∀ e ∈ builtin.entries, e.codec.target = e.type := by decide
  exact ⟨fun e he => ⟨htarget e he, hall e he⟩, rfl⟩

/-- The byte of a truth value is lost, or a second one follows it; and named places are of the other
kind. -/
theorem builtin_withstand_damage_bool :
    (∃ e ∈ builtin.entries, e.type = .of Bool ∧
      e.codec.encode (some (.of true)) = .ok (some [1]) ∧
      e.codec.decode (some []) = .ok .skipped ∧ e.codec.decode (some [1, 1]) = .ok .skipped) ∧
    ∃ e ∈ builtin.entries, e.type = .of GeoLocation ∧ e.codec.RefusesDamage := by
  have hbool : ⟨.of Bool, Codec.bool.erased, 0⟩ ∈ builtin.entries :=
    List.mem_of_getElem? (i := 0) rfl
  have hplace : ⟨.of GeoLocation, Codec.geoLocation.erased, 11⟩ ∈ builtin.entries :=
    List.mem_of_getElem? (i := 11) rfl
  have hwritten : Codec.bool.erased.encode (some (.of true)) = .ok (some [1]) :=
    Codec.bool.encode_erased_of true
  have hskips := (builtin_withstand_damage.1 _ hbool).2.skips nofun
  have hrefuses := (builtin_withstand_damage.1 _ hplace).2.refuses rfl
  exact ⟨⟨_, hbool, rfl, hwritten, hskips.cut _ [] [1] hwritten (List.cons_ne_nil 1 []),
    hskips.padded _ [1] [1] hwritten (List.cons_ne_nil 1 [])⟩, _, hplace, rfl, hrefuses⟩

end Registry

end CommandWire
