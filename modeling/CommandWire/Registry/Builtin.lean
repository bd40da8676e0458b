import CommandWire.Argument.Expiration
import CommandWire.Argument.GeoLocation
import CommandWire.Argument.Range
import CommandWire.Argument.SortOptions
import CommandWire.Argument.WeightedKeys
import CommandWire.Registry.Basic

/-!
# Built-in codecs

The codecs that a registry usually starts with: those of fixed width, and those for the types of
command arguments. The codec for texts is not among them, so texts go through the fallback, whose
encodings are never empty.
-/

namespace CommandWire.Registry

/-- Factories of the built-in codecs, in the order in which they are registered. -/
def builtinFactories : List Factory :=
  [ .ofCodec Codec.bool
  , .ofCodec Codec.short
  , .ofCodec Codec.int
  , .ofCodec Codec.long
  , .ofCodec Codec.double
  , .ofCodec (Codec.ordinal TimeUnit)
  , .ofCodec (Codec.ordinal SortOrder)
  , .ofCodec (Codec.ordinal Aggregate)
  , .ofCodec Codec.point
  , .ofCodec Codec.limit
  , .ofCodec Codec.expiration
  , .ofCodec Codec.geoLocation
  , .ofCodec (Codec.range Codec.double)
  , .ofCodec (Codec.range Codec.long)
  , .ofCodec (Codec.range Codec.string)
  , .ofCodec Codec.sortOptions
  , .ofCodec Codec.weightedKeys ]

/-- The registry of the built-in codecs. -/
def builtin : Registry := (empty.install builtinFactories).registry

end CommandWire.Registry
