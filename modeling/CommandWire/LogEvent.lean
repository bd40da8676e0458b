/-!
# Log events

What the library reports about its work, apart from results and errors.
-/

namespace CommandWire

/-- How much attention an event wants. -/
inductive LogLevel where
  | trace
  | debug
  | warn
deriving DecidableEq

def LogLevel.name : LogLevel → String
  | trace => "TRACE"
  | debug => "DEBUG"
  | warn => "WARN"

/-- What is said under a name in an event. -/
inductive LogValue where
  | text (text : String)
  | number (n : Nat)
deriving DecidableEq

/-- An event worth reporting. Types and codecs are given by their display names. -/
inductive LogEvent where
  | codecRegistered (type codec : String)
  /-- A codec took the place of a different one. -/
  | codecReplaced (type previousCodec previousTarget codec : String)
  /-- A type had no codec, and its fallback is kept from now on. -/
  | fallbackCached (type codec : String)
  /-- The target type of a factory's codec is not known. -/
  | factorySkipped (factory : String)
  /-- A frame has an unknown version and is read as if it had the default one. -/
  | unknownVersion (version : UInt8)
deriving DecidableEq

namespace LogEvent

def level : LogEvent → LogLevel
  | codecRegistered .. => .trace
  | codecReplaced .. => .warn
  | fallbackCached .. => .debug
  | factorySkipped .. => .warn
  | unknownVersion .. => .warn

def message : LogEvent → String
  | codecRegistered .. => "codec registered"
  | codecReplaced .. => "replacing registered codec"
  | fallbackCached .. => "no codec registered, caching generic fallback"
  | factorySkipped .. => "skipping codec factory with unknown target type"
  | unknownVersion .. => "unknown wire version, decoding with the default variant"

/-- What the event says beyond its message. -/
def fields : LogEvent → List (String × LogValue)
  | codecRegistered type codec => [("target_type", .text type), ("codec", .text codec)]
  | codecReplaced type previousCodec previousTarget codec =>
    [ ("target_type", .text type), ("previous_codec", .text previousCodec)
    , ("previous_target", .text previousTarget), ("codec", .text codec) ]
  | fallbackCached type codec => [("target_type", .text type), ("codec", .text codec)]
  | factorySkipped factory => [("factory", .text factory)]
  | unknownVersion version => [("version", .number version.toNat)]

end LogEvent

end CommandWire
