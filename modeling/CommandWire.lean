import CommandWire.Bytes
import CommandWire.Word
import CommandWire.SortedMap
import CommandWire.Double.Basic
import CommandWire.Double.Shortest
import CommandWire.DisplayName
import CommandWire.Shape
import CommandWire.ValueType
import CommandWire.Json.Reader
import CommandWire.Json.Number
import CommandWire.Json.Text
import CommandWire.Json.Skip
import CommandWire.Json.Object
import CommandWire.Json.Read
import CommandWire.Json.Write
import CommandWire.Toml.Token
import CommandWire.Toml.Document
import CommandWire.Codec.Error
import CommandWire.Codec.Basic
import CommandWire.Codec.Primitive
import CommandWire.Codec.Ordinal
import CommandWire.Codec.Erased
import CommandWire.Codec.Fallback
import CommandWire.Codec.Tagged
import CommandWire.Argument.Expiration
import CommandWire.Argument.GeoLocation
import CommandWire.Argument.SortOptions
import CommandWire.Argument.WeightedKeys
import CommandWire.Argument.Range
import CommandWire.LogEvent
import CommandWire.Registry.Basic
import CommandWire.Registry.Builtin
import CommandWire.PublishScope
import CommandWire.Frame.Write
import CommandWire.Frame.Read
import CommandWire.Frame.Cursor
import CommandWire.Method.Basic
import CommandWire.Method.Table
import CommandWire.Event.Config
import CommandWire.Event.ConfigDocument
import CommandWire.Event.Command
import CommandWire.Event.Variant
import CommandWire.Event.Codec
import CommandWire.Description
import CommandWire.Description.Quoted
import CommandWire.Proofs.Bytes.Ascii
import CommandWire.Proofs.Json.Text
import CommandWire.Proofs.Json.Number
import CommandWire.Proofs.Json.Reader
import CommandWire.Proofs.Json.Object
import CommandWire.Proofs.Json.ReadBack
import CommandWire.Proofs.Json.Faithful
import CommandWire.Proofs.Json.Relay
import CommandWire.Proofs.Json.Nesting
import CommandWire.Proofs.Json.FaithfulShape
import CommandWire.Proofs.Json.Cut
import CommandWire.Proofs.Codec.Carrying
import CommandWire.Proofs.Codec.Erased
import CommandWire.Proofs.Codec.Primitive
import CommandWire.Proofs.Codec.FixedWidth
import CommandWire.Proofs.Codec.Ordinal
import CommandWire.Proofs.Codec.ExactOrdinal
import CommandWire.Proofs.Codec.Fallback
import CommandWire.Proofs.Codec.FaithfulFallback
import CommandWire.Proofs.Codec.Tagged
import CommandWire.Proofs.Argument.FixedWidth
import CommandWire.Proofs.Argument.Exact
import CommandWire.Proofs.Argument.Duration
import CommandWire.Proofs.Argument.Tagged
import CommandWire.Proofs.Argument.TaggedReading
import CommandWire.Proofs.Argument.Range
import CommandWire.Proofs.Argument.Mismatch
import CommandWire.Proofs.Registry.Lookup
import CommandWire.Proofs.Registry.Growth
import CommandWire.Proofs.Registry.History
import CommandWire.Proofs.Registry.Answers
import CommandWire.Proofs.Registry.Builtin
import CommandWire.Proofs.Registry.Damage
import CommandWire.Proofs.Registry.Typed
import CommandWire.Proofs.PublishScope.Entries
import CommandWire.Proofs.PublishScope.Request
import CommandWire.Proofs.PublishScope.History
import CommandWire.Proofs.PublishScope.Once
import CommandWire.Proofs.PublishScope.Session
import CommandWire.Proofs.PublishScope.Transparency
import CommandWire.Proofs.Frame.Fields
import CommandWire.Proofs.Frame.Script
import CommandWire.Proofs.Frame.Truncation
import CommandWire.Proofs.Frame.Outcome
import CommandWire.Proofs.Frame.Cursor
import CommandWire.Proofs.Method.Name
import CommandWire.Proofs.Method.Table
import CommandWire.Proofs.Method.Lookup
import CommandWire.Proofs.Method.Insertion
import CommandWire.Proofs.Method.Growth
import CommandWire.Proofs.Event.Method
import CommandWire.Proofs.Event.Decoding
import CommandWire.Proofs.Event.RoundTrip
import CommandWire.Proofs.Event.SharedEncoding
import CommandWire.Proofs.Event.Relay
import CommandWire.Proofs.Event.Growth
import CommandWire.Proofs.Event.History
import CommandWire.Proofs.Event.Outcome
import CommandWire.Proofs.Event.Damage
import CommandWire.Proofs.Event.VersionPolicy
