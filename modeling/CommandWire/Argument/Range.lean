import CommandWire.Codec.Primitive
import CommandWire.Codec.Tagged

/-!
# Ranges

A range has two bounds, and a bound may be missing. A missing bound counts as inclusive whatever
its flag says; the flag is kept, because JSON shows it, but neither comparison nor the tagged
encoding looks at it.

The values of the bounds are encoded by any codec, so there are ranges of ranges.
-/

namespace CommandWire

/-! ### Bounds -/

/-- One end of a range. -/
structure Bound (α : Type) where
  value : Option α
  /-- The end belongs to the range; of no account where there is no end. -/
  flag : Bool
deriving DecidableEq

namespace Bound

variable {α : Type}

/-- An end, or none; without an end the flag is set. -/
def of (value : Option α) (inclusive : Bool) : Bound α := ⟨value, inclusive || value.isNone⟩

def inclusive (value : α) : Bound α := ⟨some value, true⟩

def exclusive (value : α) : Bound α := ⟨some value, false⟩

def unbounded : Bound α := ⟨none, true⟩

def isBounded (b : Bound α) : Bool := b.value.isSome

/-- The end belongs to the range, or there is none. -/
def isInclusive (b : Bound α) : Bool := b.flag || b.value.isNone

/-- The bounds are equal, given when values are. -/
def same (sameValue : α → α → Bool) (a b : Bound α) : Bool :=
  a.isInclusive == b.isInclusive &&
    match a.value, b.value with
    | some x, some y => sameValue x y
    | none, none => true
    | _, _ => false

end Bound

/-! ### Ranges -/

/-- What lies between two bounds. -/
structure Range (α : Type) where
  lower : Bound α
  upper : Bound α
deriving DecidableEq

namespace Range

variable {α : Type}

def unbounded : Range α := ⟨.unbounded, .unbounded⟩

def closed (lower upper : α) : Range α := ⟨.inclusive lower, .inclusive upper⟩

def isUnbounded (r : Range α) : Bool := !r.lower.isBounded && !r.upper.isBounded

/-- The ranges are equal, given when values are. -/
def same (sameValue : α → α → Bool) (r s : Range α) : Bool :=
  r.lower.same sameValue s.lower && r.upper.same sameValue s.upper

end Range

section

variable {α : Type} [Carriable α]

instance : Carriable (Bound α) where
  type :=
    { name := DisplayName.applied (DisplayName.argument "range" "Bound") (ValueType.of α).name
      shape :=
        .record
          (.cons "value" (ValueType.of (Option α)).shape (.cons "inclusive" .bool .nil))
      wellNamed := by simp }
  toData b := (Carriable.toData b.value, b.flag, ())
  ofData := fun (value, flag, ()) => ⟨Carriable.ofData (α := Option α) value, flag⟩
  ofData_toData _ := by simp [Carriable.ofData_toData]
  toData_ofData := fun (_, _, ()) => by
    simp [Carriable.toData_ofData]
    rfl

instance : Carriable (Range α) where
  type :=
    { name := DisplayName.range (ValueType.of α).name
      shape :=
        .record
          (.cons "lower" (ValueType.of (Bound α)).shape
            (.cons "upper" (ValueType.of (Bound α)).shape .nil))
      wellNamed := by simp }
  toData r := (Carriable.toData r.lower, Carriable.toData r.upper, ())
  ofData := fun (lower, upper, ()) =>
    ⟨Carriable.ofData (α := Bound α) lower, Carriable.ofData (α := Bound α) upper⟩
  ofData_toData _ := by simp [Carriable.ofData_toData]
  toData_ofData := fun (_, _, ()) => by
    simp [Carriable.toData_ofData]
    rfl

end

/-! ### Encoding -/

/-- The tags of one side of a range. -/
structure BoundTags where
  value : String
  inclusive : String

def lowerTags : BoundTags := ⟨"mv", "mi"⟩
def upperTags : BoundTags := ⟨"xv", "xi"⟩

namespace Bound

variable {α : Type}

/-- Adds the parts of a bound; an open side has none. -/
def encodeParts (b : Bound α) (tags : BoundTags) (values : Codec α) (parts : TaggedParts) :
    Except CodecError TaggedParts :=
  match b.value with
  | none => .ok parts
  | some value => do
    let parts ← parts.encodePart tags.value values (some value)
    parts.encodePart tags.inclusive Codec.bool (some b.isInclusive)

/-- The bound in some parts. Without a value the side is open, and the other tag is not looked
at; without the other tag the bound is inclusive. -/
def decodeParts (tags : BoundTags) (values : Codec α) (parts : TaggedParts) :
    Except CodecError (Bound α) := do
  match ← parts.decodePart tags.value values with
  | none => return unbounded
  | some value =>
    let inclusive ← parts.decodePart tags.inclusive Codec.bool
    return of (some value) (inclusive.getD true)

end Bound

namespace Range

variable {α : Type}

def toParts (values : Codec α) (r : Range α) : Except CodecError TaggedParts := do
  let parts ← r.lower.encodeParts lowerTags values .empty
  r.upper.encodeParts upperTags values parts

def ofParts (values : Codec α) (parts : TaggedParts) : Except CodecError (Range α) := do
  let lower ← Bound.decodeParts lowerTags values parts
  let upper ← Bound.decodeParts upperTags values parts
  return { lower, upper }

end Range

/-- The codec for ranges, given one for the values. -/
def Codec.range {α : Type} (values : Codec α) : Codec (Range α) :=
  ofTagged (DisplayName.rangeCodec values.name) (Range.toParts values) (Range.ofParts values)

end CommandWire
