import CommandWire.Codec.Error
import CommandWire.Method.Basic
import Std.Data.HashMap

/-!
# Method tables

A method table numbers methods in the order of their insertion, and finds them by number and by
signature. Two different methods with one signature cannot be told apart on the wire, so the
second one is refused. The numbers must fit a signed number of 16 bits, which bounds the table.
-/

namespace CommandWire

/-- Methods with distinct signatures, in order. -/
structure MethodTable where
  methods : Array Method
  /-- The position of the method with a signature. -/
  positions : Std.HashMap Signature Nat

namespace MethodTable

/-- How many methods there can be. -/
def capacity : Nat := 32768

def empty : MethodTable := ⟨#[], ∅⟩

instance : Inhabited MethodTable := ⟨empty⟩

def size (t : MethodTable) : Nat := t.methods.size

/-- The method with an index. -/
def get? (t : MethodTable) (index : Int16) : Option Method :=
  if index < 0 then none else t.methods[index.toInt.toNat]?

/-- Inserts a method. The result is its index, next to the table after the insertion. A method that
is there already keeps its index. -/
def insert (t : MethodTable) (m : Method) : Except CodecError Int16 × MethodTable :=
  match t.positions[m.signature]? with
  | some position =>
    if t.methods[position]? = some m then (.ok (.ofNat position), t)
    else
      (.error (.invalidConfig
        (m.text ++ " collides with an already indexed method of the same wire signature")), t)
  | none =>
    -- Taken apart, the two parts can be updated in place.
    let ⟨methods, positions⟩ := t
    let index := methods.size
    if index < capacity then
      (.ok (.ofNat index), ⟨methods.push m, positions.insert m.signature index⟩)
    else
      (.error (.invalidConfig ("method table is full, cannot index " ++ m.text)),
        ⟨methods, positions⟩)

/-- The table of some methods, inserted in order. -/
def ofMethods (methods : List Method) : Except CodecError MethodTable :=
  let add (t : MethodTable) (m : Method) :=
    match t.insert m with
    | (.ok _, t) => .ok t
    | (.error failure, _) => .error failure
  methods.foldlM add empty

/-- The method with a signature. -/
def bySignature (t : MethodTable) (interface method : String) (parameters : List String) :
    Option Method :=
  match t.positions[Signature.of interface method parameters]? with
  | some position => t.methods[position]?
  | none => none

/-- The index of a method that is in the table. -/
def index? (t : MethodTable) (m : Method) : Option Int16 :=
  match t.positions[m.signature]? with
  | some position => if t.methods[position]? = some m then some (.ofNat position) else none
  | none => none

/-- The table as a peer's knowledge about methods. -/
def directory (t : MethodTable) : MethodDirectory where
  bySignature := t.bySignature
  byIndex := t.get?
  index? := t.index?

end MethodTable

end CommandWire
