import CommandWire.Codec.Fallback

/-!
# Tagged parts

A value with optional parts is encoded as a map from short tags to the encodings of the parts. A
part that is missing has no tag, and the map as a whole goes through the fallback codec.
-/

namespace CommandWire

/-- The encodings of parts, by tag. -/
abbrev TaggedParts := StringMap Bytes

namespace TaggedParts

/-- Adds a part, unless it is missing. -/
def put (parts : TaggedParts) (tag : String) : Option Bytes → TaggedParts
  | some bytes => parts.insert tag bytes
  | none => parts

/-- Adds a part, encoded. -/
def encodePart {α : Type} (parts : TaggedParts) (tag : String) (codec : Codec α)
    (value : Option α) : Except CodecError TaggedParts :=
  (codec.encode value).map (parts.put tag)

/-- The part under a tag, decoded. A missing tag is a missing part; that the codec does not apply
to the bytes is an error here. -/
def decodePart {α : Type} (parts : TaggedParts) (tag : String) (codec : Codec α) :
    Except CodecError (Option α) :=
  match parts.get? tag with
  | none => .ok none
  | some bytes =>
    match codec.decode (some bytes) with
    | .error failure => .error failure
    | .ok (.value value) => .ok (some value)
    | .ok .absent => .ok none
    | .ok .skipped => .error (.notApplicable codec.name s!"tag `{tag}`")

end TaggedParts

/-- A codec that encodes a value as tagged parts. -/
def Codec.ofTagged {α : Type} (name : String) (toParts : α → Except CodecError TaggedParts)
    (ofParts : TaggedParts → Except CodecError α) : Codec α :=
  ofBytes name
    (fun value =>
      match toParts value with
      | .error failure => .error failure
      | .ok parts => jsonBytes parts)
    fun bytes =>
      match ofJsonBytes TaggedParts bytes with
      | .error failure => .error failure
      | .ok parts => ofParts parts

end CommandWire
