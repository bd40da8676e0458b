import CommandWire.Json.Number
import CommandWire.Json.Text
import CommandWire.Shape

/-!
# Writing JSON

A value is written without any blank. Lists and tuples are arrays; maps and records are objects,
the members in the order of the map or of the fields; one of several names is its text; a missing
value and the unit are `null`. A double is the shortest decimal that reads back, laid out as
`writeDecimal` says, and one that is not finite is `null`.
-/

namespace CommandWire.Json

/-! ### Doubles -/

/-- The range of the exponent of the first digit in which a decimal is written without
exponent. -/
def isPlain (exponent : Int) : Bool := -5 ≤ exponent ∧ exponent ≤ 15

/-- A decimal, given by its digits and the exponent of the first one. Without exponent there is
always a digit on both sides of the point; with exponent the sign of the exponent is always
written, and the point only before further digits. -/
def writeDigits (digits : Bytes) (exponent : Int) : Bytes :=
  if isPlain exponent then
    if exponent < 0 then
      Bytes.ofText "0." ++ List.replicate (-exponent - 1).toNat (ascii '0') ++ digits
    else
      let places := exponent.toNat + 1
      let fraction := if digits.length ≤ places then [ascii '0'] else digits.drop places
      digits.take places ++ List.replicate (places - digits.length) (ascii '0') ++
        ascii '.' :: fraction
  else
    let fraction := if digits.length ≤ 1 then [] else ascii '.' :: digits.drop 1
    digits.take 1 ++ fraction ++
      ascii 'e' :: ascii (if exponent < 0 then '-' else '+') :: writeNat exponent.natAbs

/-- A decimal. -/
def writeDecimal (d : Decimal) : Bytes :=
  let digits := writeNat d.digits
  writeDigits digits (d.exponent + digits.length - 1)

/-- A double. -/
def writeDouble (x : Double) : Bytes :=
  if !x.isFinite then Bytes.ofText "null"
  else
    let magnitude := writeDecimal x.shortest
    if x.negative then ascii '-' :: magnitude else magnitude

/-! ### Brackets -/

/-- Items between brackets, with commas between them. -/
def bracketed (opening closing : Char) (items : List Bytes) : Bytes :=
  ascii opening :: (List.intercalate [ascii ','] items ++ [ascii closing])

/-- A member of an object. -/
def writeMember (key : String) (value : Bytes) : Bytes := writeText key ++ ascii ':' :: value

/-- A list of itself. -/
def writeNest (n : Nest) : Bytes := ascii '[' :: inside n
where
  /-- The items and the closing bracket. -/
  inside : Nest → Bytes
    | .empty => [ascii ']']
    | .cons head .empty => ascii '[' :: inside head ++ [ascii ']']
    | .cons head tail => ascii '[' :: inside head ++ ascii ',' :: inside tail

/-! ### Values -/

mutual

/-- The text of a value. -/
def write : (shape : Shape) → shape.Data → Bytes
  | .bool, value => Bytes.ofText (match value with | true => "true" | false => "false")
  | .integer _, value => writeInt value.val
  | .double, value => writeDouble value
  | .char, value => writeText (String.singleton value)
  | .text, value => writeText value
  | .unit, _ => Bytes.ofText "null"
  | .variants names, value => writeText (names.get value)
  | .tuple fields, values => bracketed '[' ']' ((writeFields fields values).map (·.2))
  | .record fields, values =>
    bracketed '{' '}' ((writeFields fields values).map fun (name, text) => writeMember name text)
  | .list item, values => bracketed '[' ']' (List.map (write item) values)
  | .map item, values =>
    bracketed '{' '}' (values.entries.map fun (key, value) => writeMember key (write item value))
  | .option item, value =>
    match value with
    | none => Bytes.ofText "null"
    | some value => write item value
  | .nest, value => writeNest value

/-- The names and the texts of fields, in order. -/
def writeFields : (fields : Fields) → fields.Data → List (String × Bytes)
  | .nil, _ => []
  | .cons name shape rest, (value, values) =>
    (name, write shape value) :: writeFields rest values

end

end CommandWire.Json
