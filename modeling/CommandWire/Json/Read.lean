import CommandWire.Json.Object
import CommandWire.Shape

/-!
# Reading JSON

`reader shape` takes a value of a shape from the front of a text. Beyond what `write` writes it
accepts blanks, escapes of any kind, records as arrays, the members of a record in any order,
absent members whose shape is optional, unknown members, and a name alone in an object with
`null`.

Brackets may nest up to a given depth; every array, every object and every name in an object
counts. At most `depthLimit` brackets may be open.
-/

namespace CommandWire.Json

/-- How many brackets may be open at once. -/
def depthLimit : Nat := 127

/-- Why a text that starts with a value of the wrong kind is refused. Words, numbers and texts are
read to their ends first, because they may be unsound themselves. -/
def wrongKind (input : Bytes) : Failure :=
  let outcome : Except Failure Unit :=
    match input with
    | [] => .error .unfinished
    | b :: rest =>
      if b = ascii 'n' then (Reader.expect (Bytes.ofText "ull") rest).map fun _ => ()
      else if b = ascii 't' then (Reader.expect (Bytes.ofText "rue") rest).map fun _ => ()
      else if b = ascii 'f' then (Reader.expect (Bytes.ofText "alse") rest).map fun _ => ()
      else if startsNumber b then (readNumber (b :: rest)).map fun _ => ()
      else if b = ascii '"' then (readText rest).map fun _ => ()
      else if b = ascii '[' || b = ascii '{' then .ok ()
      else .error .malformed
  match outcome with
  | .error failure => failure
  | .ok () => .mismatched

namespace Reader

variable {α β σ : Type}

/-- Refuses a value of the wrong kind. -/
def mismatch : Reader α := refuse wrongKind

/-! ### Single tokens -/

/-- A truth value. -/
def bool : Reader Bool :=
  byFirst fun b =>
    if b = ascii 't' then word "rue" true
    else if b = ascii 'f' then word "alse" false
    else mismatch

/-- A number that can be taken for a value of the wanted type. -/
def numeric (value? : Number → Option α) : Reader α :=
  byFirst fun b => if startsNumber b then number.refine value? else mismatch

/-- A text that can be taken for a value of the wanted type. -/
def textual (value? : String → Option α) : Reader α :=
  byFirst fun b => if b = ascii '"' then quoted.refine value? else mismatch

/-- The word `null`, for a value that it stands for. -/
def null (value : α) : Reader α :=
  byFirst fun b => if b = ascii 'n' then word "ull" value else mismatch

/-- The word `null` for nothing, or else a value. -/
def option (item : Reader α) : Reader (Option α) :=
  byFirst fun b => if b = ascii 'n' then word "ull" none else item.map some

/-! ### Arrays -/

/-- An array, given the reader of what its brackets enclose, by the depth left. -/
def array (inner : Nat → Reader α) (depth : Nat) : Reader α :=
  byFirst fun b => if b = ascii '[' then enter inner depth else mismatch

/-- The end of an array. -/
def arrayEnd : Reader Unit where
  run input := (closeList input).map fun rest => ((), rest)
  shrinks {input value rest} h := by
    cases eq : closeList input with
    | error failure => rw [eq] at h; cases h
    | ok rest' =>
      rw [eq] at h
      cases h
      exact length_lt_of_closeList eq

/-- An item of an array and then all that follows up to the end. If the array ends before the
item, the result is the given one. -/
def itemThen (first : Bool) (ended : Option (α × β)) (item : Reader α) (others : Reader β) :
    Reader (α × β) where
  run input :=
    match nextItem first input with
    | .error failure => .error failure
    | .ok (.done rest) =>
      match ended with
      | some values => .ok (values, rest)
      | none => .error .mismatched
    | .ok (.item text) =>
      match item.run text with
      | .error failure => .error failure
      | .ok (value, rest) =>
        match others.run rest with
        | .error failure => .error failure
        | .ok (values, rest) => .ok ((value, values), rest)
  shrinks {input value rest} h := by
    split at h
    · cases h
    next done =>
      split at h
      · cases h
        exact length_lt_of_nextItem done
      · cases h
    next text next =>
      split at h
      · cases h
      next value rest' run =>
        have := length_le_of_nextItem next
        have := item.shrinks run
        split at h
        · cases h
        next values rest'' run' =>
          cases h
          have := others.shrinks run'
          omega

/-- A list of itself, by the depth left. -/
def nest : (depth : Nat) → Reader Nest
  | 0 => byFirst fun b => if b = ascii '[' then refuse fun _ => .malformed else mismatch
  | depth + 1 =>
    byFirst fun b =>
      if b = ascii '[' then
        (afterFirst (items (nest depth)).run
          fun h => Nat.le_of_lt ((items (nest depth)).shrinks h)).map Nest.ofList
      else mismatch

/-! ### Objects -/

/-- A member of a record whose values so far are of type `σ`. -/
structure Member (σ : Type) where
  /-- The member has been read already. -/
  filled : σ → Bool
  value : Reader (σ → σ)

/-- The same member where one more field comes before. -/
def Member.later (m : Member σ) : Member (Option α × σ) where
  filled slots := m.filled slots.2
  value := m.value.map fun update slots => (slots.1, update slots.2)

/-- Takes each of the known members once, and the others with the given reader, if there is
one. -/
def once (member? : String → Option (Member σ)) (unknown : Option (Reader (σ → σ))) (state : σ)
    (key : String) : Option (Reader (σ → σ)) :=
  match member? key with
  | some m => if m.filled state then none else some m.value
  | none => unknown

/-- Passes over the value of an unknown member. -/
def ignored : Reader (σ → σ) := skipped.map fun () => id

/-- An object whose keys are all taken; of two values under one key the later one stays. -/
def dictionary (item : Nat → Reader α) (depth : Nat) : Reader (StringMap α) :=
  byFirst fun b =>
    if b = ascii '{' then
      enter (fun depth =>
        members (fun _ key => some ((item depth).map fun value m => m.insert key value))
          SortedMap.empty) depth
    else mismatch

/-- A record, as an array of its values or as an object. -/
def record (items : Nat → Reader α) (members : Nat → Reader α) (depth : Nat) : Reader α :=
  byFirst fun b =>
    if b = ascii '[' then enter items depth
    else if b = ascii '{' then enter members depth
    else mismatch

/-- A value and then something without a value. -/
def followedBy (r : Reader α) (next : Bytes → Except Failure Bytes)
    (le : ∀ {input rest}, next input = .ok rest → rest.length ≤ input.length) : Reader α where
  run input :=
    match r.run input with
    | .error failure => .error failure
    | .ok (value, rest) =>
      match next rest with
      | .error failure => .error failure
      | .ok rest => .ok (value, rest)
  shrinks {input value rest} h := by
    split at h
    · cases h
    next value' rest' run =>
      split at h
      · cases h
      next rest'' eq =>
        cases h
        exact Nat.lt_of_le_of_lt (le eq) (r.shrinks run)

/-- The end of an object with a single member. -/
def closeObject (input : Bytes) : Except Failure Bytes :=
  match skipBlanks input with
  | [] => .error .unfinished
  | b :: rest => if b = ascii '}' then .ok rest else .error .malformed

theorem length_le_of_closeObject {input rest : Bytes} (h : closeObject input = .ok rest) :
    rest.length ≤ input.length := by
  unfold closeObject at h
  split at h
  · cases h
  next b rest' eq =>
    split at h
    · cases h
      exact Nat.le_of_lt (length_lt_of_skipBlanks eq)
    · cases h

/-- The value of the single member of such an object. -/
def readNull (input : Bytes) : Except Failure Bytes := ((null ()).run input).map (·.2)

theorem length_le_of_readNull {input rest : Bytes} (h : readNull input = .ok rest) :
    rest.length ≤ input.length := by
  unfold readNull at h
  cases eq : (null ()).run input with
  | error failure => rw [eq] at h; cases h
  | ok pair =>
    rw [eq] at h
    cases h
    exact Nat.le_of_lt ((null ()).shrinks eq)

/-- A name as the single key of an object, whose opening bracket has been taken. -/
def variantKey (value? : String → Option α) : Reader α :=
  let name := (byFirst fun _ => key).refine value?
  let member := name.followedBy readColon fun h => Nat.le_of_lt (length_lt_of_readColon h)
  (member.followedBy readNull length_le_of_readNull).followedBy closeObject length_le_of_closeObject

/-- One of several names, as a text or as the single key of an object. -/
def variant (value? : String → Option α) (depth : Nat) : Reader α :=
  byFirst fun b =>
    if b = ascii '"' then quoted.refine value?
    else if b = ascii '{' then enter (fun _ => variantKey value?) depth
    else refuse fun _ => .malformed

end Reader

/-- The only character of a text. -/
def singleChar? (text : String) : Option Char :=
  match text.toList with
  | [c] => some c
  | _ => none

/-- The number as an integer of a kind. A double is none, even if it is a whole number. -/
def Number.toKind? (kind : IntegerKind) : Number → Option kind.Value
  | .integer n => kind.ofInt? n
  | .double _ => none

/-! ### Values -/

mutual

/-- Takes a value of a shape, where so many further brackets may be opened. -/
def reader : (shape : Shape) → (depth : Nat) → Reader shape.Data
  | .bool, _ => Reader.bool
  | .integer kind, _ => Reader.numeric (Number.toKind? kind)
  | .double, _ => Reader.numeric (some ∘ Number.toDouble)
  | .char, _ => Reader.textual singleChar?
  | .text, _ => Reader.textual some
  | .unit, _ => Reader.null ()
  | .variants names, depth => Reader.variant names.finIdxOf? depth
  | .tuple fields, depth => Reader.array (fun depth => itemReader fields depth true none) depth
  | .record fields, depth =>
    Reader.record (fun depth => itemReader fields depth true none)
      (fun depth =>
        (Reader.members (Reader.once (memberReader? fields depth) (some Reader.ignored))
          fields.noSlots).refine (fields.complete? none)) depth
  | .list item, depth => Reader.array (fun depth => Reader.items (reader item depth)) depth
  | .map item, depth => Reader.dictionary (reader item) depth
  | .option item, depth => Reader.option (reader item depth)
  | .nest, depth => Reader.nest depth

/-- Takes the values of fields as the items of an array, its end included. Where the array ends
early, the defaults fill the rest. -/
def itemReader : (fields : Fields) → (depth : Nat) → (first : Bool) →
    (defaults : Option fields.Data) → Reader fields.Data
  | .nil, _, _, _ => Reader.arrayEnd
  | .cons _ shape rest, depth, first, defaults =>
    Reader.itemThen first defaults (reader shape depth)
      (itemReader rest depth false (defaults.map (·.2)))

/-- The member of a record under a key. -/
def memberReader? : (fields : Fields) → (depth : Nat) → (key : String) →
    Option (Reader.Member fields.Slots)
  | .nil, _, _ => none
  | .cons name shape rest, depth, key =>
    if key = name then
      some
        { filled := fun (slots : Option shape.Data × rest.Slots) => slots.1.isSome
          value := (reader shape depth).map
            fun value (slots : Option shape.Data × rest.Slots) => (some value, slots.2) }
    else (memberReader? rest depth key).map Reader.Member.later

end

/-- The value of a shape that a text holds. -/
def read (shape : Shape) (text : Bytes) : Except Failure shape.Data :=
  (reader shape depthLimit).read text

/-- The values of fields that a text holds as an array or an object. Unknown members are refused,
and what is not given takes its default. -/
def readWithDefaults (fields : Fields) (defaults : fields.Data) (text : Bytes) :
    Except Failure fields.Data :=
  (Reader.record (fun depth => itemReader fields depth true (some defaults))
    (fun depth =>
      (Reader.members (Reader.once (memberReader? fields depth) none) fields.noSlots).refine
        (fields.complete? (some defaults))) depthLimit).read text

end CommandWire.Json
