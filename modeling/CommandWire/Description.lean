import CommandWire.Codec.Ordinal
import CommandWire.Description.Quoted
import CommandWire.Event.Codec

/-!
# Descriptions

One line that says what a thing is, for people who look for a fault. Contents that may be large or
secret, such as arguments and codecs, are counted or hinted at and not shown.
-/

namespace CommandWire

namespace Description

/-- A name, and named parts in braces. -/
def record (name : String) (parts : List (String × String)) : String :=
  let shown := parts.map fun (part, shown) => part ++ ": " ++ shown
  name ++ " \x7b " ++ String.intercalate ", " shown ++ " \x7d"

/-- Items in brackets. -/
def list (items : List String) : String := "[" ++ String.intercalate ", " items ++ "]"

/-- A part that may be missing. -/
def optional : Option String → String
  | some shown => "Some(" ++ shown ++ ")"
  | none => "None"

end Description

open Description

def ValueType.description (type : ValueType) : String := "TypeToken(" ++ quoted type.name ++ ")"

def Registry.description (r : Registry) : String :=
  record "CodecRegistry" [("codecs", toString r.size)]

def PublishScope.description (s : PublishScope) : String :=
  record "PublishScope"
    [("encoded", toString s.encoded.length), ("decoded", toString s.decoded.length)]

namespace Ordinal

/-- The number of bytes of an ordinal, in words. -/
def widthText : OrdinalWidth → String
  | .one => "One"
  | .two => "Two"
  | .four => "Four"

/-- The description of the codec for the ordinals of a type. -/
def description (α : Type) [Ordinal α] : String :=
  record "EnumCodec"
    [ ("target", quoted (name α))
    , ("cardinality", toString (variants : Array α).size)
    , ("width", widthText (width α)) ]

end Ordinal

/-- Arguments are not shown. -/
def CommandEvent.description {ν : Type} (e : CommandEvent ν) : String :=
  let argument : Option ν → String
    | some _ => quoted "<value>"
    | none => quoted "null"
  record "CommandEvent"
    [ ("application", quoted e.application)
    , ("method", quoted e.method.text)
    , ("args", list (e.arguments.map argument))
    , ("version", optional (e.version.map fun tag => toString tag.toNat)) ]

namespace EventConfig

def versionText : WireVersion → String
  | .default => "Default"
  | .v1 => "V1"

def unknownVersionText : UnknownVersionPolicy → String
  | .strict => "Strict"
  | .lenient => "Lenient"

def description (c : EventConfig) : String :=
  record "EventCodecConfig"
    [ ("version", versionText c.version)
    , ("unknown_version", unknownVersionText c.unknownVersion)
    , ("max_argument_len", toString c.maxArgumentLength.toNat) ]

end EventConfig

/-- The description of an event codec that works with the given registry. -/
def EventCodec.description (c : EventCodec) (registry : Registry) : String :=
  let variant : UInt8 × Variant → String := fun (_, v) =>
    "(" ++ toString v.tag.toNat ++ ", " ++ quoted v.name ++ ")"
  record "EventCodec"
    [ ("codecs", registry.description)
    , ("variants", list (c.variants.entries.map variant))
    , ("config", c.config.description) ]

end CommandWire
