import CommandWire.Double.Basic
import CommandWire.SortedMap

/-!
# Shapes

A shape says what a value is made of, as far as a data format needs to know: truth values,
integers of a kind, doubles, texts, named alternatives without content, and the ways to put shapes
together. `Shape.Data` is the type of the values that have the shape.

Shapes compare by `=`, so two values can be compared even if their types are known only at run
time.
-/

namespace CommandWire

/-! ### Integers -/

/-- The integer types of fixed width. -/
inductive IntegerKind where
  | i8 | i16 | i32 | i64 | u8 | u16 | u32 | u64
deriving DecidableEq

namespace IntegerKind

/-- The least integer of the kind. -/
def low : IntegerKind → Int
  | i8 => -0x80
  | i16 => -0x8000
  | i32 => -0x80000000
  | i64 => -0x8000000000000000
  | _ => 0

/-- The least integer above all of the kind. -/
def bound : IntegerKind → Int
  | i8 => 0x80
  | i16 => 0x8000
  | i32 => 0x80000000
  | i64 => 0x8000000000000000
  | u8 => 0x100
  | u16 => 0x10000
  | u32 => 0x100000000
  | u64 => 0x10000000000000000

/-- The integers of the kind. -/
def Value (kind : IntegerKind) : Type := { n : Int // kind.low ≤ n ∧ n < kind.bound }

/-- The integer as one of the kind, if it is in range. -/
def ofInt? (kind : IntegerKind) (n : Int) : Option kind.Value :=
  if h : kind.low ≤ n ∧ n < kind.bound then some ⟨n, h⟩ else none

theorem ofInt?_val {kind : IntegerKind} (value : kind.Value) :
    kind.ofInt? value.val = some value := by
  unfold ofInt?
  rw [dif_pos value.property]
  rfl

end IntegerKind

/-! ### Lists of themselves -/

/-- A list whose items are such lists again, given by its first item and the list of the others. -/
inductive Nest where
  | empty
  | cons (head tail : Nest)
deriving DecidableEq

namespace Nest

/-- The list with the given items. -/
def ofList : List Nest → Nest
  | [] => empty
  | item :: items => cons item (ofList items)

/-- The items of the list. -/
def toList : Nest → List Nest
  | empty => []
  | cons item items => item :: items.toList

@[simp] theorem ofList_toList (n : Nest) : ofList n.toList = n := by
  induction n with
  | empty => rfl
  | cons head tail _ ih => rw [toList, ofList, ih]

@[simp] theorem toList_ofList (items : List Nest) : (ofList items).toList = items := by
  induction items with
  | nil => rfl
  | cons item items ih => rw [ofList, toList, ih]

/-- The number of lists, the outermost one included. -/
def size : Nest → Nat
  | empty => 1
  | cons head tail => head.size + tail.size

/-- How many lists enclose the deepest one. -/
def height : Nest → Nat
  | empty => 0
  | cons head tail => max (head.height + 1) tail.height

/-- The list that encloses one list, and so on, `n` times. -/
def chain : Nat → Nest
  | 0 => empty
  | n + 1 => cons (chain n) empty

end Nest

/-! ### Shapes -/

mutual

/-- What a value is made of. -/
inductive Shape where
  | bool
  | integer (kind : IntegerKind)
  | double
  | char
  | text
  | unit
  /-- One of several names. -/
  | variants (names : List String)
  /-- Values in a fixed order; the names of the fields do not matter. -/
  | tuple (fields : Fields)
  /-- Values under fixed names. -/
  | record (fields : Fields)
  | list (item : Shape)
  /-- Values of one shape under any names. -/
  | map (item : Shape)
  | option (item : Shape)
  | nest
deriving DecidableEq

/-- The names and shapes of fields, in order. -/
inductive Fields where
  | nil
  | cons (name : String) (shape : Shape) (rest : Fields)
deriving DecidableEq

end

/-- The names of the fields, in order. -/
@[simp] def Fields.names : Fields → List String
  | .nil => []
  | .cons name _ rest => name :: rest.names

mutual

/-- Wherever names tell things apart, they are distinct: those of alternatives, and those of the
fields of a record. -/
@[simp] def Shape.isWellNamed : Shape → Bool
  | .variants names => decide names.Nodup
  | .record fields => decide fields.names.Nodup && fields.isWellNamed
  | .tuple fields => fields.isWellNamed
  | .list item | .map item | .option item => item.isWellNamed
  | .bool | .integer _ | .double | .char | .text | .unit | .nest => true

/-- The same for the shapes of all fields. -/
@[simp] def Fields.isWellNamed : Fields → Bool
  | .nil => true
  | .cons _ shape rest => shape.isWellNamed && rest.isWellNamed

end

mutual

/-- The values of a shape. -/
def Shape.Data : Shape → Type
  | .bool => Bool
  | .integer kind => kind.Value
  | .double => Double
  | .char => Char
  | .text => String
  | .unit => Unit
  | .variants names => Fin names.length
  | .tuple fields => fields.Data
  | .record fields => fields.Data
  | .list item => List item.Data
  | .map item => StringMap item.Data
  | .option item => Option item.Data
  | .nest => Nest

/-- One value for each field. -/
def Fields.Data : Fields → Type
  | .nil => Unit
  | .cons _ shape rest => shape.Data × rest.Data

end

/-- A value for some of the fields. -/
def Fields.Slots : Fields → Type
  | .nil => Unit
  | .cons _ shape rest => Option shape.Data × rest.Slots

/-- No field has a value yet. -/
def Fields.noSlots : (fields : Fields) → fields.Slots
  | .nil => ()
  | .cons _ _ rest => (none, rest.noSlots)

/-- What stands for a value that is not given at all: nothing, where the shape allows that. -/
def Shape.absent? : (shape : Shape) → Option shape.Data
  | .option item => some (none : Option item.Data)
  | _ => none

/-- All fields, where those without a value take the default of their place, or count as absent
if there are no defaults. -/
def Fields.complete? : (fields : Fields) → (defaults : Option fields.Data) → fields.Slots →
    Option fields.Data
  | .nil, _, _ => some ()
  | .cons _ shape rest, defaults, (slot, slots) =>
    let value := slot <|> (defaults.map (·.1)) <|> shape.absent?
    match value, rest.complete? (defaults.map (·.2)) slots with
    | some value, some values => some (value, values)
    | _, _ => none

end CommandWire
