import CommandWire.Codec.Tagged
import CommandWire.Proofs.Codec.Carrying
import CommandWire.Proofs.Codec.Fallback

/-!
# Tagged parts are read back

A map of parts goes through the fallback codec unharmed, so a value that is encoded as parts is
carried to whatever the parts are decoded as (`Codec.ofTagged_carries`). Each part is added under a
tag of its own and found there again (`TaggedParts.IsPart`).
-/

namespace CommandWire

/-! ### Through the fallback codec -/

theorem integers_readBack {kind : IntegerKind} (values : List kind.Value) (depth : Nat) :
    Json.ReadsBack (.list (.integer kind)) (depth + 1) values values :=
  ⟨depth, rfl, List.forall₂_same.2 fun _ _ => rfl⟩

namespace TaggedParts

theorem readsBack (parts : TaggedParts) :
    Json.ReadsBack (ValueType.of TaggedParts).shape Json.depthLimit (Carriable.toData parts)
      (Carriable.toData parts) :=
  ⟨126, rfl, List.forall₂_same.2 fun _ _ => ⟨rfl, integers_readBack _ 125⟩⟩

/-! ### One part -/

@[simp] theorem get?_empty (tag : String) : (SortedMap.empty : TaggedParts).get? tag = none := rfl

/-- A part hides what was under its tag, and a missing part hides nothing. -/
@[simp] theorem get?_put (parts : TaggedParts) (tag : String) (bytes? : Option Bytes)
    (other : String) : (parts.put tag bytes?).get? other =
      if tag = other then bytes? <|> parts.get? other else parts.get? other := by
  cases bytes? with
  | none => simp [put]
  | some bytes =>
    show (parts.insert tag bytes).get? other = _
    rw [SortedMap.get?_insert]
    rfl

/-- The tags are those of the parts that are not missing. -/
theorem isSome_get?_put (parts : TaggedParts) (tag : String) (bytes? : Option Bytes)
    (other : String) : ((parts.put tag bytes?).get? other).isSome ↔
      other = tag ∧ bytes?.isSome ∨ (parts.get? other).isSome := by
  rw [get?_put]
  by_cases h : tag = other
  · cases bytes? <;> simp [h]
  · simp [h, Ne.symm h]

theorem encodePart_of_carries {α : Type} {codec : Codec α} {value back : α} {bytes : Bytes}
    (h : codec.Carries value bytes back) (parts : TaggedParts) (tag : String) :
    parts.encodePart tag codec (some value) = .ok (parts.put tag (some bytes)) := by
  rw [encodePart, h.encode_eq]
  rfl

theorem decodePart_of_carries {α : Type} {codec : Codec α} {value back : α} {bytes : Bytes}
    (h : codec.Carries value bytes back) {parts : TaggedParts} {tag : String}
    (htag : parts.get? tag = some bytes) : parts.decodePart tag codec = .ok (some back) := by
  rw [decodePart, htag]
  dsimp only
  rw [h.decode_eq]

/-- The codec writes a part, which may be missing, as these bytes, if any, and finds the part in any
map that has them under the tag. -/
structure IsPart {α : Type} (codec : Codec α) (value : Option α) (bytes? : Option Bytes) :
    Prop where
  encodePart_eq : ∀ (parts : TaggedParts) (tag : String),
    parts.encodePart tag codec value = .ok (parts.put tag bytes?)
  decodePart_eq : ∀ (parts : TaggedParts) (tag : String), parts.get? tag = bytes? →
    parts.decodePart tag codec = .ok value

theorem isPart_none {α : Type} {codec : Codec α} (h : codec.encode none = .ok none) :
    IsPart codec none none where
  encodePart_eq parts tag := by
    rw [encodePart, h]
    rfl
  decodePart_eq parts tag h := by rw [decodePart, h]

theorem isPart_some {α : Type} {codec : Codec α} {value : α} {bytes : Bytes}
    (h : codec.Carries value bytes value) : IsPart codec (some value) (some bytes) where
  encodePart_eq := encodePart_of_carries h
  decodePart_eq _ _ := decodePart_of_carries h

/-- A faithful codec that leaves out what is missing writes every part. -/
theorem exists_isPart {α : Type} {codec : Codec α} (hnone : codec.encode none = .ok none)
    (h : codec.IsFaithful) (value : Option α) : ∃ bytes?, IsPart codec value bytes? := by
  cases value with
  | none => exact ⟨none, isPart_none hnone⟩
  | some value =>
    obtain ⟨bytes, hcarries⟩ := h value
    exact ⟨some bytes, isPart_some hcarries⟩

end TaggedParts

namespace Codec

variable {α : Type} {name : String} {toParts : α → Except CodecError TaggedParts}
  {ofParts : TaggedParts → Except CodecError α}

/-- A value is carried to whatever its parts are decoded as, by the text of the parts. -/
theorem ofTagged_carries_text {value back : α} {parts : TaggedParts} {bytes : Bytes}
    (hto : toParts value = .ok parts) (hof : ofParts parts = .ok back)
    (hwrite : jsonBytes parts = .ok bytes) (hread : ofJsonBytes TaggedParts bytes = .ok parts) :
    (Codec.ofTagged name toParts ofParts).Carries value bytes back := by
  apply ofBytes_carries
  · rw [hto]
    exact hwrite
  · rw [hread]
    exact hof

theorem ofTagged_carries {value back : α} {parts : TaggedParts} (hto : toParts value = .ok parts)
    (hof : ofParts parts = .ok back) :
    ∃ bytes, bytes ≠ [] ∧ (Codec.ofTagged name toParts ofParts).Carries value bytes back := by
  obtain ⟨bytes, hsome, hwrite, hread⟩ := ofJsonBytes_of_readsBack parts.readsBack
  exact ⟨bytes, hsome, ofTagged_carries_text hto hof hwrite hread⟩

/-- What is decoded is decoded from some parts. -/
theorem ofParts_of_decode {bytes : Bytes} {value : α}
    (h : (Codec.ofTagged name toParts ofParts).decode (some bytes) = .ok (.value value)) :
    ∃ parts, ofParts parts = .ok value := by
  cases hjson : ofJsonBytes TaggedParts bytes with
  | error failure =>
    have hdecode : (Codec.ofTagged name toParts ofParts).decode (some bytes) = .error failure := by
      show Except.map _ (match ofJsonBytes TaggedParts bytes with | _ => _) = _
      rw [hjson]
      rfl
    cases hdecode.symm.trans h
  | ok parts =>
    have hdecode : (Codec.ofTagged name toParts ofParts).decode (some bytes) =
        (ofParts parts).map Decoded.value := by
      show Except.map _ (match ofJsonBytes TaggedParts bytes with | _ => _) = _
      rw [hjson]
    rw [hdecode] at h
    cases hof : ofParts parts with
    | error failure =>
      rw [hof] at h
      cases h
    | ok back =>
      rw [hof] at h
      cases h
      exact ⟨parts, hof⟩

end Codec

end CommandWire
