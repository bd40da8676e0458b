import CommandWire.DisplayName
import CommandWire.Shape

/-!
# Value types

A value type is a display name together with a shape whose names are distinct. A type of this
library's users becomes a value type by being `Carriable`: its values correspond one to one to the
data of a shape.

`AnyValue` forgets the type of a value but keeps the value type, so that the value can be asked
for again: `AnyValue.as?` answers exactly when the type is the same (`as?_of`,
`as?_eq_some_iff`).
-/

namespace CommandWire

/-- A type of values, known at run time. -/
structure ValueType where
  /-- The name in messages and logs. -/
  name : String
  shape : Shape
  /-- No two variants and no two fields share a name. -/
  wellNamed : shape.isWellNamed = true := by decide
deriving DecidableEq

attribute [simp] ValueType.wellNamed

/-- The values of a value type. -/
abbrev ValueType.Data (type : ValueType) : Type := type.shape.Data

/-- The type stands for a value type: its values are the data of that type in another form. -/
class Carriable (α : Type) where
  type : ValueType
  toData : α → type.Data
  ofData : type.Data → α
  ofData_toData : ∀ value, ofData (toData value) = value
  toData_ofData : ∀ data, toData (ofData data) = data

/-- The value type that a type stands for. -/
abbrev ValueType.of (α : Type) [Carriable α] : ValueType := Carriable.type α

/-- The data of a value type stand for that type itself. -/
@[reducible] def ValueType.carriable (type : ValueType) : Carriable type.Data where
  type := type
  toData data := data
  ofData data := data
  ofData_toData _ := rfl
  toData_ofData _ := rfl

/-! ### Values of any type -/

/-- A value together with its type. -/
structure AnyValue where
  type : ValueType
  data : type.Data

namespace AnyValue

variable {α : Type} [Carriable α]

/-- Forgets the type of a value. -/
def of (value : α) : AnyValue := ⟨.of α, Carriable.toData value⟩

/-- The value, if it is of the given type. -/
def as? (value : AnyValue) (α : Type) [Carriable α] : Option α :=
  if h : value.type = .of α then some (Carriable.ofData (cast (congrArg _ h) value.data)) else none

@[simp] theorem as?_of (value : α) : (of value).as? α = some value := by
  unfold as? of
  rw [dif_pos rfl]
  exact congrArg some (Carriable.ofData_toData value)

theorem as?_eq_some_iff {any : AnyValue} {value : α} :
    any.as? α = some value ↔ any = of value := by
  constructor
  · intro h
    obtain ⟨type, data⟩ := any
    unfold as? at h
    split at h
    next same =>
      replace same : type = .of α := same
      subst same
      cases h
      exact congrArg (AnyValue.mk _) (Carriable.toData_ofData data).symm
    · cases h
  · rintro rfl
    exact as?_of value

theorem as?_eq_none_iff {any : AnyValue} : any.as? α = none ↔ any.type ≠ .of α := by
  unfold as?
  split <;> simp_all

theorem exists_eq_of {any : AnyValue} (h : any.type = .of α) : ∃ value : α, any = of value := by
  cases hvalue : any.as? α with
  | none => exact absurd h (as?_eq_none_iff.1 hvalue)
  | some value => exact ⟨value, as?_eq_some_iff.1 hvalue⟩

end AnyValue

/-! ### Basic types -/

instance : Carriable Bool where
  type := { name := "bool", shape := .bool }
  toData value := value
  ofData data := data
  ofData_toData _ := rfl
  toData_ofData _ := rfl

instance : Carriable Int8 where
  type := { name := "i8", shape := .integer .i8 }
  toData n := ⟨n.toInt, n.le_toInt, n.toInt_lt⟩
  ofData data := .ofInt data.val
  ofData_toData := Int8.ofInt_toInt
  toData_ofData data := Subtype.ext (Int8.toInt_ofInt_of_le data.2.1 data.2.2)

instance : Carriable Int16 where
  type := { name := "i16", shape := .integer .i16 }
  toData n := ⟨n.toInt, n.le_toInt, n.toInt_lt⟩
  ofData data := .ofInt data.val
  ofData_toData := Int16.ofInt_toInt
  toData_ofData data := Subtype.ext (Int16.toInt_ofInt_of_le data.2.1 data.2.2)

instance : Carriable Int32 where
  type := { name := "i32", shape := .integer .i32 }
  toData n := ⟨n.toInt, n.le_toInt, n.toInt_lt⟩
  ofData data := .ofInt data.val
  ofData_toData := Int32.ofInt_toInt
  toData_ofData data := Subtype.ext (Int32.toInt_ofInt_of_le data.2.1 data.2.2)

instance : Carriable Int64 where
  type := { name := "i64", shape := .integer .i64 }
  toData n := ⟨n.toInt, n.le_toInt, n.toInt_lt⟩
  ofData data := .ofInt data.val
  ofData_toData := Int64.ofInt_toInt
  toData_ofData data := Subtype.ext (Int64.toInt_ofInt_of_le data.2.1 data.2.2)

/-- A natural number below the bound of an unsigned kind. -/
def IntegerKind.unsigned {kind : IntegerKind} (n : Nat) (low : kind.low = 0)
    (bound : (n : Int) < kind.bound) : kind.Value :=
  ⟨n, low ▸ Int.natCast_nonneg n, bound⟩

instance : Carriable UInt8 where
  type := { name := "u8", shape := .integer .u8 }
  toData n := IntegerKind.unsigned n.toNat rfl (Int.ofNat_lt.2 n.toNat_lt)
  ofData data := .ofNat data.val.toNat
  ofData_toData _ := UInt8.ofNat_toNat
  toData_ofData data := by
    obtain ⟨n, low, bound⟩ := data
    obtain ⟨n, rfl⟩ := Int.eq_ofNat_of_zero_le low
    exact Subtype.ext (congrArg Int.ofNat (UInt8.toNat_ofNat_of_lt' (Int.ofNat_lt.1 bound)))

instance : Carriable UInt16 where
  type := { name := "u16", shape := .integer .u16 }
  toData n := IntegerKind.unsigned n.toNat rfl (Int.ofNat_lt.2 n.toNat_lt)
  ofData data := .ofNat data.val.toNat
  ofData_toData _ := UInt16.ofNat_toNat
  toData_ofData data := by
    obtain ⟨n, low, bound⟩ := data
    obtain ⟨n, rfl⟩ := Int.eq_ofNat_of_zero_le low
    exact Subtype.ext (congrArg Int.ofNat (UInt16.toNat_ofNat_of_lt' (Int.ofNat_lt.1 bound)))

instance : Carriable UInt32 where
  type := { name := "u32", shape := .integer .u32 }
  toData n := IntegerKind.unsigned n.toNat rfl (Int.ofNat_lt.2 n.toNat_lt)
  ofData data := .ofNat data.val.toNat
  ofData_toData _ := UInt32.ofNat_toNat
  toData_ofData data := by
    obtain ⟨n, low, bound⟩ := data
    obtain ⟨n, rfl⟩ := Int.eq_ofNat_of_zero_le low
    exact Subtype.ext (congrArg Int.ofNat (UInt32.toNat_ofNat_of_lt' (Int.ofNat_lt.1 bound)))

instance : Carriable UInt64 where
  type := { name := "u64", shape := .integer .u64 }
  toData n := IntegerKind.unsigned n.toNat rfl (Int.ofNat_lt.2 n.toNat_lt)
  ofData data := .ofNat data.val.toNat
  ofData_toData _ := UInt64.ofNat_toNat
  toData_ofData data := by
    obtain ⟨n, low, bound⟩ := data
    obtain ⟨n, rfl⟩ := Int.eq_ofNat_of_zero_le low
    exact Subtype.ext (congrArg Int.ofNat (UInt64.toNat_ofNat_of_lt' (Int.ofNat_lt.1 bound)))

instance : Carriable Double where
  type := { name := "f64", shape := .double }
  toData value := value
  ofData data := data
  ofData_toData _ := rfl
  toData_ofData _ := rfl

instance : Carriable Char where
  type := { name := "char", shape := .char }
  toData value := value
  ofData data := data
  ofData_toData _ := rfl
  toData_ofData _ := rfl

instance : Carriable String where
  type := { name := DisplayName.text, shape := .text }
  toData value := value
  ofData data := data
  ofData_toData _ := rfl
  toData_ofData _ := rfl

instance : Carriable Unit where
  type := { name := DisplayName.unit, shape := .unit }
  toData value := value
  ofData data := data
  ofData_toData _ := rfl
  toData_ofData _ := rfl

/-- A type with finitely many values, each of which has a name. -/
@[reducible] def Carriable.ofNames {α : Type} (name : String) (names : List String)
    (distinct : names.Nodup) (index : α → Fin names.length) (value : Fin names.length → α)
    (value_index : ∀ a, value (index a) = a) (index_value : ∀ i, index (value i) = i) :
    Carriable α where
  type := { name, shape := .variants names, wellNamed := decide_eq_true distinct }
  toData := index
  ofData := value
  ofData_toData := value_index
  toData_ofData := index_value

/-! ### Types made of types -/

variable {α β : Type} [Carriable α] [Carriable β]

open Carriable

instance : Carriable (Option α) where
  type :=
    { name := DisplayName.option (type α).name
      shape := .option (type α).shape
      wellNamed := (type α).wellNamed }
  toData value := Option.map toData value
  ofData data := Option.map ofData data
  ofData_toData value := by cases value <;> simp [ofData_toData]
  toData_ofData (data : Option _) := by cases data <;> simp [toData_ofData] <;> rfl

instance : Carriable (List α) where
  type :=
    { name := DisplayName.list (type α).name
      shape := .list (type α).shape
      wellNamed := (type α).wellNamed }
  toData values := List.map toData values
  ofData data := List.map ofData data
  ofData_toData values := by simp [Function.comp_def, ofData_toData]
  toData_ofData (data : List _) := by
    simp [Function.comp_def, toData_ofData]
    rfl

instance : Carriable (α × β) where
  type :=
    { name := DisplayName.pair (type α).name (type β).name
      shape := .tuple (.cons "0" (type α).shape (.cons "1" (type β).shape .nil))
      wellNamed := by simp }
  toData := fun (a, b) => (toData a, toData b, ())
  ofData := fun (a, b, ()) => (ofData a, ofData b)
  ofData_toData _ := by simp [ofData_toData]
  toData_ofData := fun (_, _, ()) => by
    simp [toData_ofData]
    rfl

instance : Carriable (StringMap α) where
  type :=
    { name := DisplayName.stringMap (type α).name
      shape := .map (type α).shape
      wellNamed := (type α).wellNamed }
  toData m := SortedMap.map m toData
  ofData data := SortedMap.map data ofData
  ofData_toData m := SortedMap.ext (by simp [SortedMap.map, Function.comp_def, ofData_toData])
  toData_ofData (data : SortedMap String _) :=
    SortedMap.ext (by simp [SortedMap.map, Function.comp_def, toData_ofData])

end CommandWire
