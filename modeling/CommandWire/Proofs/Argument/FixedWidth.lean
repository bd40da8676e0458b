import CommandWire.Argument.Expiration
import CommandWire.Argument.GeoLocation
import CommandWire.Argument.SortOptions
import CommandWire.Argument.WeightedKeys
import CommandWire.Proofs.Codec.Ordinal

/-!
# Arguments of fixed width

Points, limits and expirations are two values of fixed width, one after the other, so the first
eight bytes are those of the first value. The enumerations list their variants by ordinal.
-/

namespace CommandWire

instance : LawfulOrdinal TimeUnit where
  variants_ordinal u := by cases u <;> rfl
  size_le := by decide

instance : LawfulOrdinal SortOrder where
  variants_ordinal o := by cases o <;> rfl
  size_le := by decide

instance : LawfulOrdinal Aggregate where
  variants_ordinal a := by cases a <;> rfl
  size_le := by decide

namespace Codec

theorem point_carries (p : Point) : point.Carries p p.toBytes p := by
  refine ofWidth_carries (by simp [Point.toBytes]) ?_
  rw [Point.ofBytes, Point.toBytes, List.take_left' (length_doubleBytes p.x),
    List.drop_left' (length_doubleBytes p.x), ofDoubleBytes_doubleBytes, ofDoubleBytes_doubleBytes]

theorem limit_carries (l : Limit) : limit.Carries l l.toBytes l := by
  refine ofWidth_carries (by simp [Limit.toBytes]) ?_
  rw [Limit.ofBytes, Limit.toBytes, List.take_left' (length_longBytes l.offset),
    List.drop_left' (length_longBytes l.offset), ofLongBytes_longBytes, ofLongBytes_longBytes]

theorem expiration_carries (e : Expiration) : expiration.Carries e e.toBytes e := by
  refine ofWidth_carries ?_ ?_
  · rw [Expiration.toBytes, List.length_append, length_longBytes, Ordinal.length_toBytes]
    rfl
  · rw [Expiration.ofBytes, Expiration.toBytes, List.take_left' (length_longBytes e.duration),
      List.drop_left' (length_longBytes e.duration), (ordinal_carries e.unit).decode_eq,
      ofLongBytes_longBytes]

end Codec

end CommandWire
