import CommandWire.Codec.Ordinal
import CommandWire.Codec.Primitive
import CommandWire.ValueType
import CommandWire.Word

/-!
# Expirations

An expiration is a number of time units. It is encoded as the number and then the ordinal of the
unit. As a duration it is exact, or there is none: negative numbers and more than `2 ^ 64 - 1`
seconds have no duration. Durations are computed in words of a machine, the length in nanoseconds in
a wide one.
-/

namespace CommandWire

/-! ### Time units -/

/-- A unit of time. -/
inductive TimeUnit where
  | nanoseconds
  | microseconds
  | milliseconds
  | seconds
  | minutes
  | hours
  | days
deriving DecidableEq

namespace TimeUnit

/-- The length of the unit in nanoseconds. -/
def nanos : TimeUnit → UInt64
  | nanoseconds => 1
  | microseconds => 1000
  | milliseconds => 1000000
  | seconds => 1000000000
  | minutes => 60 * 1000000000
  | hours => 3600 * 1000000000
  | days => 86400 * 1000000000

/-- The position among the units. -/
def index : TimeUnit → Fin 7
  | nanoseconds => 0
  | microseconds => 1
  | milliseconds => 2
  | seconds => 3
  | minutes => 4
  | hours => 5
  | days => 6

def ofIndex : Fin 7 → TimeUnit
  | 0 => nanoseconds
  | 1 => microseconds
  | 2 => milliseconds
  | 3 => seconds
  | 4 => minutes
  | 5 => hours
  | 6 => days

theorem ofIndex_index (u : TimeUnit) : ofIndex (index u) = u := by cases u <;> rfl

theorem index_ofIndex : ∀ i : Fin 7, index (ofIndex i) = i := by decide

end TimeUnit

instance : Carriable TimeUnit :=
  .ofNames (DisplayName.argument "expiration" "TimeUnit")
    ["Nanoseconds", "Microseconds", "Milliseconds", "Seconds", "Minutes", "Hours", "Days"]
    (by decide) TimeUnit.index TimeUnit.ofIndex TimeUnit.ofIndex_index TimeUnit.index_ofIndex

instance : Ordinal TimeUnit where
  name := DisplayName.argument "expiration" "TimeUnit"
  variants := .ofFn TimeUnit.ofIndex
  ordinal u := u.index

/-! ### Expirations -/

/-- A number of time units; what a negative number means is left to the receiver. -/
structure Expiration where
  duration : Int64
  unit : TimeUnit
deriving DecidableEq

instance : Carriable Expiration where
  type :=
    { name := DisplayName.argument "expiration" "Expiration"
      shape :=
        .record
          (.cons "duration" (.integer .i64) (.cons "unit" (ValueType.of TimeUnit).shape .nil)) }
  toData e := (Carriable.toData e.duration, Carriable.toData e.unit, ())
  ofData := fun (duration, unit, ()) =>
    ⟨Carriable.ofData (α := Int64) duration, Carriable.ofData (α := TimeUnit) unit⟩
  ofData_toData _ := by simp [Carriable.ofData_toData]
  toData_ofData := fun (_, _, ()) => by
    simp [Carriable.toData_ofData]
    rfl

/-- A span of time: whole seconds, and less than `10 ^ 9` nanoseconds. -/
structure Duration where
  seconds : UInt64
  nanos : UInt32
  nanos_lt : nanos < 1000000000
deriving DecidableEq

namespace Duration

/-- The span of these seconds and nanoseconds. Where the nanoseconds make up seconds, these are
carried over, and the sum must be a word. -/
def ofParts (seconds : UInt64) (nanos : UInt32) : Except Crash Duration :=
  if h : nanos < 1000000000 then .ok ⟨seconds, nanos, h⟩
  else do
    let seconds ← Crash.add seconds (nanos / 1000000000).toUInt64
    return ⟨seconds, nanos % 1000000000, UInt32.mod_lt nanos (by decide)⟩

/-- The span of so many nanoseconds, if a word can count its seconds. -/
def ofNanos? (total : WideWord) : Except Crash (Option Duration) :=
  (total / 1000000000).toWord?.mapM fun seconds => ofParts seconds (total % 1000000000).low

end Duration

/-- The length of so many of the units in nanoseconds. -/
def TimeUnit.total (unit : TimeUnit) (count : UInt64) : Except Crash WideWord :=
  WideWord.mul (.ofWord count) (.ofWord unit.nanos)

namespace Expiration

/-- The span of time that the expiration names, if there is one. -/
def toDuration? (e : Expiration) : Except Crash (Option Duration) :=
  if e.duration < 0 then .ok none
  else e.unit.total e.duration.toUInt64 >>= Duration.ofNanos?

def toBytes (e : Expiration) : Bytes := longBytes e.duration ++ Ordinal.toBytes e.unit

/-- The expiration of nine bytes. That the ordinal does not apply to the last one cannot happen. -/
def ofBytes (bytes : Bytes) : Except CodecError (Decoded Expiration) :=
  match (Codec.ordinal TimeUnit).decode (some (bytes.drop 8)) with
  | .error failure => .error failure
  | .ok (.value unit) => .ok (.value ⟨ofLongBytes (bytes.take 8), unit⟩)
  | .ok _ => .error (.notApplicable (Codec.ordinal TimeUnit).name "expiration unit")

end Expiration

def Codec.expiration : Codec Expiration :=
  ofWidth (DisplayName.argument "expiration" "ExpirationCodec") 9 Expiration.toBytes
    Expiration.ofBytes

end CommandWire
