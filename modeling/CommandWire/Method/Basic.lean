import CommandWire.ValueType

/-!
# Methods

A method is an interface, a name and parameters. On the wire an interface goes by its simple
name, which is what follows the last separator, and a parameter by a name for its type; these
names together are the method's `Signature`. Which codec an argument gets is decided by the value
type of the parameter, which is not sent.
-/

namespace CommandWire

/-! ### Simple names -/

/-- What follows the last double colon, or the given text if there is none. -/
def afterDoubleColon (best : List Char) : List Char → List Char
  | [] => best
  | c :: rest =>
    afterDoubleColon (if c = ':' ∧ rest.head? = some ':' then rest.tail else best) rest

/-- What follows the last dot, or the given text if there is none. -/
def afterDot (best : List Char) : List Char → List Char
  | [] => best
  | c :: rest => afterDot (if c = '.' then rest else best) rest

/-- The last segment of a name: first what follows the last double colon, and of that what follows
the last dot. -/
def lastSegment (name : String) : String :=
  let tail := afterDoubleColon name.toList name.toList
  .ofList (afterDot tail tail)

/-! ### Methods -/

/-- A parameter of a method. -/
structure Parameter where
  /-- The name of the type on the wire. -/
  wireType : String
  type : ValueType
deriving DecidableEq

/-- A method that can be called from afar. -/
structure Method where
  /-- The full name of the interface. -/
  interface : String
  name : String
  parameters : List Parameter
deriving DecidableEq

/-- A method as the wire knows it. -/
structure Signature where
  /-- The simple name of the interface. -/
  interface : String
  method : String
  parameters : List String
deriving DecidableEq, Hashable

/-- The text for people of an interface, a method and the types of its parameters. -/
def signatureText (interface method : String) (parameters : List String) : String :=
  s!"{interface}.{method}(" ++ String.intercalate ", " parameters ++ ")"

namespace Signature

/-- The signature of these names; the interface may be given in full. -/
def of (interface method : String) (parameters : List String) : Signature :=
  ⟨lastSegment interface, method, parameters⟩

def text (s : Signature) : String := signatureText s.interface s.method s.parameters

end Signature

namespace Method

def wireInterface (m : Method) : String := lastSegment m.interface

def wireTypes (m : Method) : List String := m.parameters.map (·.wireType)

def signature (m : Method) : Signature := .of m.interface m.name m.wireTypes

/-- The text for people. -/
def text (m : Method) : String := m.signature.text

end Method

/-! ### Directories -/

/-- What a peer knows about methods: the two ways to find one, and the index of each. -/
structure MethodDirectory where
  bySignature : (interface method : String) → (parameters : List String) → Option Method
  byIndex : Int16 → Option Method
  index? : Method → Option Int16

/-- Methods that are known by index only; of two with the same index the first one counts. -/
def MethodDirectory.ofIndices (entries : List (Int16 × Method)) : MethodDirectory where
  bySignature _ _ _ := none
  byIndex index := entries.lookup index
  index? m := (entries.find? (·.2 = m)).map (·.1)

end CommandWire
