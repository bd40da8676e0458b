import CommandWire.Codec.Ordinal
import CommandWire.Codec.Primitive
import CommandWire.Codec.Tagged

/-!
# Weighted keys

Keys with weights, and how the scores under them are put together. The weights go through JSON as
the bytes of doubles and not as numbers, so every double keeps its bits.
-/

namespace CommandWire

/-! ### Aggregates -/

inductive Aggregate where
  | sum
  | min
  | max
deriving DecidableEq

namespace Aggregate

def index : Aggregate → Fin 3
  | sum => 0
  | min => 1
  | max => 2

def ofIndex : Fin 3 → Aggregate
  | 0 => sum
  | 1 => min
  | 2 => max

theorem ofIndex_index (a : Aggregate) : ofIndex (index a) = a := by cases a <;> rfl

theorem index_ofIndex : ∀ i : Fin 3, index (ofIndex i) = i := by decide

end Aggregate

instance : Carriable Aggregate :=
  .ofNames (DisplayName.argument "weights" "Aggregate") ["Sum", "Min", "Max"] (by decide)
    Aggregate.index Aggregate.ofIndex Aggregate.ofIndex_index Aggregate.index_ofIndex

instance : Ordinal Aggregate where
  name := DisplayName.argument "weights" "Aggregate"
  variants := .ofFn Aggregate.ofIndex
  ordinal a := a.index

/-! ### Weighted keys -/

/-- Keys with weights, in order, and an aggregate. -/
structure WeightedKeys where
  weights : List (String × Double)
  aggregate : Option Aggregate
deriving DecidableEq

instance : Carriable WeightedKeys where
  type :=
    { name := DisplayName.argument "weights" "WeightedKeys"
      shape :=
        .record
          (.cons "weights" (ValueType.of (List (String × Double))).shape
            (.cons "aggregate" (ValueType.of (Option Aggregate)).shape .nil)) }
  toData w := (Carriable.toData w.weights, Carriable.toData w.aggregate, ())
  ofData := fun (weights, aggregate, ()) =>
    ⟨Carriable.ofData (α := List (String × Double)) weights,
      Carriable.ofData (α := Option Aggregate) aggregate⟩
  ofData_toData _ := by simp [Carriable.ofData_toData]
  toData_ofData := fun (_, _, ()) => by
    simp [Carriable.toData_ofData]
    rfl

namespace WeightedKeys

def weightsTag : String := "w"
def aggregateTag : String := "a"

/-- The weight of a key from its bytes, of which there must be eight. -/
def weightOfBytes : String × Bytes → Except CodecError (String × Double)
  | (key, bytes) =>
    if bytes.length = 8 then .ok (key, ofDoubleBytes bytes)
    else .error (.notApplicable Codec.double.name s!"weight of `{key}`")

def toParts (w : WeightedKeys) : Except CodecError TaggedParts := do
  let weights := w.weights.map fun (key, weight) => (key, doubleBytes weight)
  let parts ← TaggedParts.encodePart .empty weightsTag (Codec.fallback (List (String × Bytes)))
    (if weights.isEmpty then none else some weights)
  parts.encodePart aggregateTag (Codec.ordinal Aggregate) w.aggregate

def ofParts (parts : TaggedParts) : Except CodecError WeightedKeys := do
  let weights ← parts.decodePart weightsTag (Codec.fallback (List (String × Bytes)))
  let weights ← (weights.getD []).mapM weightOfBytes
  let aggregate ← parts.decodePart aggregateTag (Codec.ordinal Aggregate)
  return { weights, aggregate }

end WeightedKeys

def Codec.weightedKeys : Codec WeightedKeys :=
  ofTagged (DisplayName.argument "weights" "WeightedKeysCodec") WeightedKeys.toParts
    WeightedKeys.ofParts

end CommandWire
