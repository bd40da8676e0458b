import CommandWire.Shape
import CommandWire.Toml.Token

/-!
# TOML documents

A document is read into a tree of tables, as far as settings need it: values are texts, integers,
empty arrays and tables, and a table in braces holds no table but empty ones. Whatever else a
document may hold, no setting has such a value, so such a document is refused as a whole.

A table may be opened once by a header, and a key may be given once. A table that came to be
through a dotted key may be added to by dotted keys; one that a longer header has brought about
may still be opened by its own.
-/

namespace CommandWire.Toml

/-- How a table came to be. -/
inductive Origin where
  /-- By its own header. -/
  | header
  /-- By a header that goes on. -/
  | passed
  | dotted
  | braces
deriving DecidableEq

/-- The value of a key. -/
inductive Node where
  | text (content : String)
  | integer (n : Int)
  | emptyArray
  | table (origin : Origin) (entries : List (String × Node))

/-- Keys with their values. -/
abbrev Entries := List (String × Node)

namespace Entries

def get? (entries : Entries) (key : String) : Option Node :=
  (entries.find? (·.1 = key)).map (·.2)

/-- Adds a key, or changes its value. -/
def set (entries : Entries) (key : String) (node : Node) : Entries :=
  if (entries.get? key).isSome then entries.map fun e => if e.1 = key then (key, node) else e
  else entries ++ [(key, node)]

/-- Opens the table at a path of keys. -/
def openTable (entries : Entries) : (path : List String) → Option Entries
  | [] => none
  | [key] =>
    match entries.get? key with
    | none => some (entries.set key (.table .header []))
    | some (.table .passed inner) => some (entries.set key (.table .header inner))
    | some _ => none
  | key :: path =>
    match entries.get? key with
    | none => (openTable [] path).map fun inner => entries.set key (.table .passed inner)
    | some (.table origin inner) =>
      if origin = .braces then none
      else (openTable inner path).map fun inner => entries.set key (.table origin inner)
    | some _ => none

/-- Gives a value to a dotted key. -/
def assign (entries : Entries) (node : Node) : (key : List String) → Option Entries
  | [] => none
  | [key] => if (entries.get? key).isSome then none else some (entries.set key node)
  | key :: path =>
    match entries.get? key with
    | none => (assign [] node path).map fun inner => entries.set key (.table .dotted inner)
    | some (.table origin inner) =>
      -- A key may go past a table that a longer header has brought about, but not into it.
      if origin = .dotted ∨ origin = .passed ∧ 1 < path.length then
        (assign inner node path).map fun inner => entries.set key (.table origin inner)
      else none
    | some _ => none

/-- Changes the table at a path of keys. -/
def within (entries : Entries) (change : Entries → Option Entries) :
    (path : List String) → Option Entries
  | [] => change entries
  | key :: path =>
    match entries.get? key with
    | some (.table origin inner) =>
      (within inner change path).map fun inner => entries.set key (.table origin inner)
    | _ => none

end Entries

/-! ### Integers -/

/-- Digits of a base; an underscore may stand between two digits. -/
def digits? (base : Nat) (digits : List Char) : Option Nat :=
  let groups := (digits.splitOnP (· = '_'))
  if groups.any List.isEmpty then none
  else groups.flatten.foldlM (fun n c => (digit? base c).map (base * n + ·)) 0

/-- An integer without sign: decimal without leading zeros, or in another base. -/
def unsigned? : List Char → Option Nat
  | '0' :: 'x' :: digits => digits? 16 digits
  | '0' :: 'o' :: digits => digits? 8 digits
  | '0' :: 'b' :: digits => digits? 2 digits
  | ['0'] => some 0
  | '0' :: _ => none
  | digits => digits? 10 digits

/-- A signed decimal integer, or one without sign; it must fit 64 bits. -/
def integer? (word : String) : Option Int := do
  let isDecimal (digits : List Char) : Bool := digits.all fun c => c.isDigit || c = '_'
  let n ←
    match word.toList with
    | '-' :: digits => if isDecimal digits then (unsigned? digits).map fun n => -(n : Int) else none
    | '+' :: digits => if isDecimal digits then (unsigned? digits).map fun n => (n : Int) else none
    | digits => (unsigned? digits).map fun n => (n : Int)
  if IntegerKind.i64.low ≤ n ∧ n < IntegerKind.i64.bound then some n else none

/-! ### Lines -/

/-- A word that may be a key. -/
def isBareKey (word : String) : Bool := word.toList.all fun c => isWordChar c && c ≠ '+'

/-- A key: segments with dots between them. -/
def key? : List Token → Option (List String)
  | [.word w] => if isBareKey w then some [w] else none
  | [.text t] => some [t]
  | .word w :: .dot :: rest =>
    if isBareKey w then (key? rest).map (w :: ·) else none
  | .text t :: .dot :: rest => (key? rest).map (t :: ·)
  | _ => none

/-- A value that is not a table with keys. -/
def atom? : List Token → Option Node
  | [.text t] => some (.text t)
  | [.block t] => some (.text t)
  | [.word w] => (integer? w).map .integer
  | [.openBrace, .closeBrace] => some (.table .braces [])
  | [.openBracket, .closeBracket] => some .emptyArray
  | _ => none

/-- A key and its value, with an equals sign between them. -/
def pair? (value? : List Token → Option Node) (line : List Token) :
    Option (List String × Node) := do
  let key ← key? (line.takeWhile (· ≠ .equals))
  let value ← value? ((line.dropWhile (· ≠ .equals)).drop 1)
  return (key, value)

/-- A value, which may be a table in braces. -/
def value? (line : List Token) : Option Node :=
  match atom? line with
  | some node => some node
  | none =>
    match line with
    | .openBrace :: rest =>
      if rest.getLast? = some .closeBrace then do
        -- Braces do not nest, so every comma stands between two pairs.
        let pairs ← (rest.dropLast.splitOnP (· = .comma)).mapM (pair? atom?)
        let entries ← pairs.foldlM (fun entries (key, node) => Entries.assign entries node key) []
        return .table .braces entries
      else none
    | _ => none

/-- What a line says. -/
inductive Statement where
  | nothing
  | header (path : List String)
  | assignment (key : List String) (value : Node)

def statement? : List Token → Option Statement
  | [] => some .nothing
  | .openBracket :: rest =>
    if rest.getLast? = some .closeBracket then (key? rest.dropLast).map .header else none
  | line => (pair? value? line).map fun (key, value) => .assignment key value

/-- An empty array on several lines is put on one. -/
def joinLines : List Token → List Token
  | [] => []
  | .openBracket :: rest =>
    match rest.dropWhile (· = .newline) with
    | .closeBracket :: _ => .openBracket :: joinLines (rest.dropWhile (· = .newline))
    | _ => .openBracket :: joinLines rest
  | token :: rest => token :: joinLines rest
termination_by tokens => tokens.length
decreasing_by
  · exact Nat.lt_succ_of_le (List.dropWhile_suffix _).length_le
  · exact Nat.lt_succ_self _
  · exact Nat.lt_succ_self _

/-! ### Documents -/

/-- The tree of some statements, given the path of the table that is open. -/
def build (entries : Entries) : (path : List String) → List Statement → Option Entries
  | _, [] => some entries
  | path, .nothing :: rest => build entries path rest
  | _, .header path :: rest => do build (← entries.openTable path) path rest
  | path, .assignment key value :: rest => do
    build (← entries.within (·.assign value key) path) path rest

/-- The tree of a document. -/
def document? (text : String) : Option Entries := do
  let cs := text.toList
  let tokens ← tokens .between (if cs.head? = some '\uFEFF' then cs.tail else cs)
  let statements ← ((joinLines tokens).splitOnP (· = .newline)).mapM statement?
  build [] [] statements

end CommandWire.Toml
