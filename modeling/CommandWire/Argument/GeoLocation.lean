import CommandWire.Codec.Primitive
import CommandWire.Codec.Tagged

/-!
# Points and named places

A point in the plane is encoded as its two coordinates, one after the other. A place may have a name
and may have a point as its position; each is a tagged part.
-/

namespace CommandWire

/-! ### Points -/

/-- A point in the plane, for instance a longitude and a latitude. -/
structure Point where
  x : Double
  y : Double
deriving DecidableEq

instance : Carriable Point where
  type :=
    { name := DisplayName.argument "point" "Point"
      shape := .record (.cons "x" .double (.cons "y" .double .nil)) }
  toData p := (p.x, p.y, ())
  ofData := fun (x, y, ()) => ⟨x, y⟩
  ofData_toData _ := rfl
  toData_ofData _ := rfl

namespace Point

def toBytes (p : Point) : Bytes := doubleBytes p.x ++ doubleBytes p.y

def ofBytes (bytes : Bytes) : Point := ⟨ofDoubleBytes (bytes.take 8), ofDoubleBytes (bytes.drop 8)⟩

end Point

def Codec.point : Codec Point :=
  ofWidth (DisplayName.argument "point" "PointCodec") 16 Point.toBytes
    fun bytes => .ok (.value (Point.ofBytes bytes))

/-! ### Places -/

/-- A place with a name and a position, either of which may be missing. -/
structure GeoLocation where
  name : Option String
  point : Option Point
deriving DecidableEq

instance : Carriable GeoLocation where
  type :=
    { name := DisplayName.argument "geo" "GeoLocation"
      shape :=
        .record
          (.cons "name" (ValueType.of (Option String)).shape
            (.cons "point" (ValueType.of (Option Point)).shape .nil)) }
  toData g := (Carriable.toData g.name, Carriable.toData g.point, ())
  ofData := fun (name, point, ()) =>
    ⟨Carriable.ofData (α := Option String) name, Carriable.ofData (α := Option Point) point⟩
  ofData_toData _ := by simp [Carriable.ofData_toData]
  toData_ofData := fun (_, _, ()) => by
    simp [Carriable.toData_ofData]
    rfl

namespace GeoLocation

def nameTag : String := "n"
def pointTag : String := "p"

def toParts (g : GeoLocation) : Except CodecError TaggedParts := do
  let parts ← TaggedParts.encodePart .empty nameTag Codec.string g.name
  parts.encodePart pointTag Codec.point g.point

def ofParts (parts : TaggedParts) : Except CodecError GeoLocation := do
  let name ← parts.decodePart nameTag Codec.string
  let point ← parts.decodePart pointTag Codec.point
  return { name, point }

end GeoLocation

def Codec.geoLocation : Codec GeoLocation :=
  ofTagged (DisplayName.argument "geo" "GeoLocationCodec") GeoLocation.toParts
    GeoLocation.ofParts

end CommandWire
