import CommandWire.Json.Reader

/-!
# Errors of codecs and frames

Whatever can go wrong between a value and its bytes, or between a command and its frame, is one
`CodecError`. Each has a stable code, a text, and an answer to the question whether the bytes are
damaged beyond repair.

That a codec does not apply to some bytes is no error: that is `Decoded.skipped`.
-/

namespace CommandWire

/-- The two directions of a codec. -/
inductive Direction where
  | encode
  | decode
deriving DecidableEq

def Direction.name : Direction → String
  | encode => "encode"
  | decode => "decode"

/-- What can go wrong. -/
inductive CodecError where
  /-- The ordinal that was read names no variant. -/
  | corruptOrdinal (target : String) (ordinal : Int) (cardinality : Nat)
  /-- A codec was given a value of another type. -/
  | typeMismatch (expected : String)
  /-- The fallback codec failed. -/
  | fallback (target : String) (direction : Direction) (failure : Json.Failure)
  /-- A text is not UTF-8. -/
  | invalidUtf8 (field : String)
  /-- A codec does not apply to bytes that are its own. -/
  | notApplicable (codec field : String)
  /-- No variant is registered for a version. -/
  | unsupportedVersion (version : UInt8)
  /-- The frame ends inside a field. -/
  | truncated (field : String) (needed remaining : Nat)
  /-- The frame goes on after its last field. -/
  | trailingBytes (remaining : Nat)
  /-- An argument does not fit its block. -/
  | argumentTooLarge (index length limit : Nat)
  /-- An argument is given, but its encoding is empty. -/
  | emptyArgument (index : Nat)
  /-- The number of arguments is not that of the parameters. -/
  | argumentCount (method : String) (expected actual : Nat)
  /-- The number of parameters does not fit a byte. -/
  | tooManyParameters (method : String) (count : Nat)
  /-- The length of a name does not fit a byte. -/
  | nameTooLong (field : String) (length : Nat)
  /-- A name has a character outside ASCII. -/
  | nonAscii (field : String)
  /-- No method is known by this identity. -/
  | unresolvedMethod (signature : String)
  /-- A method has no index. -/
  | unindexedMethod (method : String)
  /-- A setting is not allowed. -/
  | invalidConfig (detail : String)
  /-- A configuration document is not sound, or does not fit the settings. -/
  | unreadableConfig
deriving DecidableEq

namespace CodecError

/-- The stable code, domain first. -/
def code : CodecError → String
  | corruptOrdinal .. => "codec.corrupt_ordinal"
  | typeMismatch .. => "codec.type_mismatch"
  | fallback .. => "codec.fallback"
  | invalidUtf8 .. => "codec.invalid_utf8"
  | notApplicable .. => "codec.not_applicable"
  | unsupportedVersion .. => "frame.unsupported_version"
  | truncated .. => "frame.truncated"
  | trailingBytes .. => "frame.trailing_bytes"
  | argumentTooLarge .. => "frame.argument_too_large"
  | emptyArgument .. => "frame.empty_argument"
  | argumentCount .. => "frame.argument_count"
  | tooManyParameters .. => "frame.too_many_parameters"
  | nameTooLong .. => "frame.name_too_long"
  | nonAscii .. => "frame.non_ascii"
  | unresolvedMethod .. => "method.unresolved"
  | unindexedMethod .. => "method.unindexed"
  | invalidConfig .. => "config.invalid"
  | unreadableConfig => "config.invalid"

/-- The text for people. -/
def message : CodecError → String
  | corruptOrdinal target ordinal cardinality =>
    s!"ordinal {ordinal} is out of range for enum `{target}` with {cardinality} variants"
  | typeMismatch expected => s!"codec for `{expected}` received a value of a different type"
  | fallback target direction _ => s!"generic codec failed to {direction.name} `{target}`"
  | invalidUtf8 field => s!"{field} is not valid UTF-8"
  | notApplicable codec field => s!"codec `{codec}` does not apply to the bytes of {field}"
  | unsupportedVersion version => s!"unsupported wire version {version.toNat}"
  | truncated field needed remaining =>
    s!"frame truncated while reading {field}: need {needed} bytes, {remaining} remaining"
  | trailingBytes remaining => s!"frame has {remaining} unread trailing bytes"
  | argumentTooLarge index length limit =>
    s!"argument #{index} encodes to {length} bytes, exceeding the {limit}-byte block limit"
  | emptyArgument index => s!"argument #{index} is present but encodes to zero bytes"
  | argumentCount method expected actual =>
    s!"method `{method}` declares {expected} parameters but {actual} arguments were supplied"
  | tooManyParameters method count =>
    s!"method `{method}` declares {count} parameters, exceeding the 255-parameter limit"
  | nameTooLong field length =>
    s!"{field} is {length} bytes long, exceeding the 255-byte prefix limit"
  | nonAscii field => s!"{field} contains non-ASCII characters"
  | unresolvedMethod signature => s!"no method registered for {signature}"
  | unindexedMethod method => s!"method `{method}` has no index in the method registry"
  | invalidConfig detail => s!"invalid codec configuration: {detail}"
  | unreadableConfig => "invalid codec configuration"

/-- The bytes or the definitions on the two sides do not fit together, so that trying again is
useless. -/
def isDamage : CodecError → Bool
  | corruptOrdinal .. | truncated .. | trailingBytes .. => true
  | _ => false

end CodecError

end CommandWire
