import CommandWire.Codec.Error
import CommandWire.Json.Read

/-!
# The configuration of event codecs

Three settings: in which version events are written that do not name one, what becomes of frames
of unknown version, and how long the block of an argument may be.

As JSON a configuration is a record whose members may be missing but not unknown.
-/

namespace CommandWire

/-- The built-in versions of frames. -/
inductive WireVersion where
  /-- Methods go by their names. -/
  | default
  /-- Methods go by their indices. -/
  | v1
deriving DecidableEq

namespace WireVersion

/-- The first byte of a frame of the version. -/
def tag : WireVersion → UInt8
  | default => 0
  | v1 => 1

def ofTag? (tag : UInt8) : Option WireVersion :=
  if tag = 0 then some default else if tag = 1 then some v1 else none

/-- The name in configurations. -/
def name : WireVersion → String
  | default => "default"
  | v1 => "v1"

def all : List WireVersion := [default, v1]

end WireVersion

/-- What becomes of frames of unknown version. -/
inductive UnknownVersionPolicy where
  /-- They are refused. -/
  | strict
  /-- They are reported and read as if they had the default version. -/
  | lenient
deriving DecidableEq

namespace UnknownVersionPolicy

/-- The name in configurations. -/
def name : UnknownVersionPolicy → String
  | strict => "strict"
  | lenient => "lenient"

def all : List UnknownVersionPolicy := [strict, lenient]

end UnknownVersionPolicy

/-- The settings of an event codec. -/
structure EventConfig where
  version : WireVersion
  unknownVersion : UnknownVersionPolicy
  /-- The greatest length of the block of an argument. -/
  maxArgumentLength : UInt8
deriving DecidableEq

namespace EventConfig

/-- The settings where nothing else is said. -/
def default : EventConfig := ⟨.default, .strict, 255⟩

instance : Inhabited EventConfig := ⟨default⟩

/-- With blocks of length zero no argument could be sent. -/
def validate (c : EventConfig) : Except CodecError Unit :=
  if c.maxArgumentLength = 0 then
    .error (.invalidConfig "max_argument_len must be at least 1")
  else .ok ()

/-! ### JSON -/

/-- The members of a configuration. -/
def fields : Fields :=
  .cons "version" (.variants (WireVersion.all.map WireVersion.name))
    (.cons "unknown_version" (.variants (UnknownVersionPolicy.all.map UnknownVersionPolicy.name))
      (.cons "max_argument_len" (.integer .u8) .nil))

/-- The settings as the values of the members. -/
def toData (c : EventConfig) : fields.Data :=
  ((match c.version with | .default => (0 : Fin 2) | .v1 => (1 : Fin 2)),
    (match c.unknownVersion with | .strict => (0 : Fin 2) | .lenient => (1 : Fin 2)),
    (⟨c.maxArgumentLength.toNat, Int.natCast_nonneg _,
      Int.ofNat_lt.2 c.maxArgumentLength.toNat_lt⟩ : IntegerKind.u8.Value), ())

/-- The settings from the values of the members. -/
def ofData : fields.Data → EventConfig
  | (version, unknownVersion, maxArgumentLength, ()) =>
    { version := WireVersion.all.get version
      unknownVersion := UnknownVersionPolicy.all.get unknownVersion
      maxArgumentLength := .ofNat maxArgumentLength.val.toNat }

/-- The configuration that a JSON text holds. It is not validated. -/
def ofJson? (text : Bytes) : Except Json.Failure EventConfig :=
  (Json.readWithDefaults fields default.toData text).map ofData

end EventConfig

end CommandWire
