import CommandWire.Codec.Ordinal
import CommandWire.Codec.Primitive
import CommandWire.Codec.Tagged

/-!
# Limits and options for sorting

A limit cuts a part out of a list of results. It is encoded as its two numbers, one after the
other. The options of a sort, of which a limit is one, are tagged parts. The alphabetic order has a
tag only if it is wanted, and the list of patterns only if it is not empty.
-/

namespace CommandWire

/-! ### Limits -/

/-- Skip `offset` results, then take `count`. -/
structure Limit where
  offset : Int64
  count : Int64
deriving DecidableEq

instance : Carriable Limit where
  type :=
    { name := DisplayName.argument "limit" "Limit"
      shape := .record (.cons "offset" (.integer .i64) (.cons "count" (.integer .i64) .nil)) }
  toData l := (Carriable.toData l.offset, Carriable.toData l.count, ())
  ofData := fun (offset, count, ()) =>
    ⟨Carriable.ofData (α := Int64) offset, Carriable.ofData (α := Int64) count⟩
  ofData_toData _ := by simp [Carriable.ofData_toData]
  toData_ofData := fun (_, _, ()) => by
    simp [Carriable.toData_ofData]
    rfl

namespace Limit

def toBytes (l : Limit) : Bytes := longBytes l.offset ++ longBytes l.count

def ofBytes (bytes : Bytes) : Limit := ⟨ofLongBytes (bytes.take 8), ofLongBytes (bytes.drop 8)⟩

end Limit

def Codec.limit : Codec Limit :=
  ofWidth (DisplayName.argument "limit" "LimitCodec") 16 Limit.toBytes
    fun bytes => .ok (.value (Limit.ofBytes bytes))

/-! ### Orders -/

inductive SortOrder where
  | asc
  | desc
deriving DecidableEq

namespace SortOrder

def index : SortOrder → Fin 2
  | asc => ⟨0, by decide⟩
  | desc => ⟨1, by decide⟩

def ofIndex : Fin 2 → SortOrder
  | 0 => asc
  | 1 => desc

theorem ofIndex_index (o : SortOrder) : ofIndex (index o) = o := by cases o <;> rfl

theorem index_ofIndex : ∀ i : Fin 2, index (ofIndex i) = i := by decide

end SortOrder

instance : Carriable SortOrder :=
  .ofNames (DisplayName.argument "sort" "SortOrder") ["Asc", "Desc"] (by decide)
    SortOrder.index SortOrder.ofIndex SortOrder.ofIndex_index SortOrder.index_ofIndex

instance : Ordinal SortOrder where
  name := DisplayName.argument "sort" "SortOrder"
  variants := .ofFn SortOrder.ofIndex
  ordinal o := o.index

/-! ### Options -/

/-- How to sort, and what to answer. -/
structure SortOptions where
  order : Option SortOrder
  /-- Compare as texts. -/
  alpha : Bool
  /-- The keys to sort by. -/
  byPattern : Option String
  /-- The keys to answer with, in order. -/
  getPatterns : List String
  limit : Option Limit
deriving DecidableEq

instance : Carriable SortOptions where
  type :=
    { name := DisplayName.argument "sort" "SortOptions"
      shape :=
        .record
          (.cons "order" (ValueType.of (Option SortOrder)).shape
            (.cons "alpha" .bool
              (.cons "by_pattern" (ValueType.of (Option String)).shape
                (.cons "get_patterns" (ValueType.of (List String)).shape
                  (.cons "limit" (ValueType.of (Option Limit)).shape .nil))))) }
  toData o :=
    (Carriable.toData o.order, o.alpha, Carriable.toData o.byPattern,
      Carriable.toData o.getPatterns, Carriable.toData o.limit, ())
  ofData := fun (order, alpha, byPattern, getPatterns, limit, ()) =>
    { order := Carriable.ofData (α := Option SortOrder) order
      alpha
      byPattern := Carriable.ofData (α := Option String) byPattern
      getPatterns := Carriable.ofData (α := List String) getPatterns
      limit := Carriable.ofData (α := Option Limit) limit }
  ofData_toData _ := by simp [Carriable.ofData_toData]
  toData_ofData := fun (_, _, _, _, _, ()) => by
    simp [Carriable.toData_ofData]
    rfl

namespace SortOptions

def orderTag : String := "o"
def alphaTag : String := "a"
def byTag : String := "b"
def getTag : String := "g"
def limitTag : String := "l"

def toParts (o : SortOptions) : Except CodecError TaggedParts := do
  let parts ← TaggedParts.encodePart .empty orderTag (Codec.ordinal SortOrder) o.order
  let parts ← parts.encodePart alphaTag Codec.bool (if o.alpha then some true else none)
  let parts ← parts.encodePart byTag Codec.string o.byPattern
  let parts ← parts.encodePart getTag (Codec.fallback (List String))
    (if o.getPatterns.isEmpty then none else some o.getPatterns)
  parts.encodePart limitTag Codec.limit o.limit

def ofParts (parts : TaggedParts) : Except CodecError SortOptions := do
  let order ← parts.decodePart orderTag (Codec.ordinal SortOrder)
  let alpha ← parts.decodePart alphaTag Codec.bool
  let byPattern ← parts.decodePart byTag Codec.string
  let getPatterns ← parts.decodePart getTag (Codec.fallback (List String))
  let limit ← parts.decodePart limitTag Codec.limit
  return { order, alpha := alpha.getD false, byPattern, getPatterns := getPatterns.getD [], limit }

end SortOptions

def Codec.sortOptions : Codec SortOptions :=
  ofTagged (DisplayName.argument "sort" "SortOptionsCodec") SortOptions.toParts
    SortOptions.ofParts

end CommandWire
