import CommandWire.Bytes

/-!
# Readers of JSON text

Reading is streaming and typed: a reader knows which value it wants, takes it from the front of
the bytes, and leaves the rest. The first problem it meets is the answer, and there are three
kinds of problem (`Failure`).

A reader carries the proof that it consumes at least one byte (`Reader.shrinks`). So every loop
over readers ends because the unread bytes become fewer, and no loop needs a bound of its own.
-/

namespace CommandWire.Json

/-- Why a text is refused. -/
inductive Failure where
  /-- The text ended inside a value, or where a value was wanted. -/
  | unfinished
  /-- The text is well formed up to here, but it is not a value of the wanted type. -/
  | mismatched
  /-- The text is not JSON, nests too deeply, or holds a number out of range. -/
  | malformed
deriving DecidableEq, Repr

/-- The kind of problem in one word. -/
def Failure.category : Failure → String
  | unfinished => "eof"
  | mismatched => "data"
  | malformed => "syntax"

/-! ### Blanks -/

/-- Between tokens only these four bytes may stand. -/
def isBlank (b : UInt8) : Bool :=
  b = ascii ' ' || b = ascii '\n' || b = ascii '\t' || b = ascii '\r'

/-- The text without the blanks in front. -/
def skipBlanks (input : Bytes) : Bytes := input.dropWhile isBlank

theorem length_skipBlanks_le (input : Bytes) : (skipBlanks input).length ≤ input.length := by
  unfold skipBlanks
  induction input with
  | nil => exact Nat.le_refl _
  | cons b rest ih =>
    rw [List.dropWhile_cons]
    split
    · exact Nat.le_succ_of_le ih
    · exact Nat.le_refl _

theorem length_lt_of_skipBlanks {input rest : Bytes} {b : UInt8}
    (h : skipBlanks input = b :: rest) : rest.length < input.length := by
  have le := length_skipBlanks_le input
  rw [h] at le
  exact le

/-! ### Readers -/

/-- A way to take a value from the front of a text. -/
structure Reader (α : Type) where
  /-- The value in front and the text after it. -/
  run : Bytes → Except Failure (α × Bytes)
  shrinks : ∀ {input value rest}, run input = .ok (value, rest) → rest.length < input.length

namespace Reader

variable {α β : Type}

/-- Refuses every text, for a reason that may depend on the text. -/
def refuse (reason : Bytes → Failure) : Reader α where
  run input := .error (reason input)
  shrinks h := nomatch h

/-- Reads a value and turns it into another; where that is impossible the type is wrong. -/
def refine (r : Reader α) (f : α → Option β) : Reader β where
  run input :=
    match r.run input with
    | .error failure => .error failure
    | .ok (value, rest) =>
      match f value with
      | some value => .ok (value, rest)
      | none => .error .mismatched
  shrinks {input value rest} h := by
    split at h
    · cases h
    next value' rest' run =>
      split at h
      · cases h
        exact r.shrinks run
      · cases h

/-- Reads a value and turns it into another. -/
def map (r : Reader α) (f : α → β) : Reader β := r.refine (some ∘ f)

/-- Chooses a reader by the first byte that is not blank; a text of blanks is unfinished. -/
def byFirst (choose : UInt8 → Reader α) : Reader α where
  run input :=
    match skipBlanks input with
    | [] => .error .unfinished
    | b :: rest => (choose b).run (b :: rest)
  shrinks {input value rest} h := by
    have le := length_skipBlanks_le input
    split at h
    · cases h
    next b rest' eq =>
      have := (choose b).shrinks h
      rw [eq] at le
      omega

/-- Drops the first byte, which has been looked at already, and goes on. -/
def afterFirst (next : Bytes → Except Failure (α × Bytes))
    (le : ∀ {input value rest}, next input = .ok (value, rest) → rest.length ≤ input.length) :
    Reader α where
  run input :=
    match input with
    | [] => .error .unfinished
    | _ :: rest => next rest
  shrinks {input value rest} h := by
    cases input with
    | nil => cases h
    | cons b input => exact Nat.lt_succ_of_le (le h)

/-- Enters a bracket: drops it and reads what it encloses, one level deeper. At level zero
nothing may be entered any more. -/
def enter (inner : Nat → Reader α) : (depth : Nat) → Reader α
  | 0 => refuse fun _ => .malformed
  | depth + 1 => afterFirst (inner depth).run fun h => Nat.le_of_lt ((inner depth).shrinks h)

/-- Reads a text that holds the value, blanks around it, and nothing else. -/
def read (r : Reader α) (text : Bytes) : Except Failure α :=
  match r.run text with
  | .error failure => .error failure
  | .ok (value, rest) => if skipBlanks rest = [] then .ok value else .error .malformed

/-! ### Words -/

/-- Takes exactly the given bytes. -/
def expect : (word input : Bytes) → Except Failure Bytes
  | [], input => .ok input
  | _ :: _, [] => .error .unfinished
  | w :: word, b :: rest => if b = w then expect word rest else .error .malformed

theorem length_le_of_expect {word input rest : Bytes} (h : expect word input = .ok rest) :
    rest.length ≤ input.length := by
  induction word generalizing input with
  | nil =>
    cases h
    exact Nat.le_refl _
  | cons w word ih =>
    cases input with
    | nil => cases h
    | cons b input =>
      rw [expect] at h
      split at h
      · exact Nat.le_succ_of_le (ih h)
      · cases h

/-- Reads a word whose first byte has been looked at already, for a value that it stands for. -/
def word (more : String) (value : α) : Reader α :=
  afterFirst (fun input => (expect (Bytes.ofText more) input).map fun rest => (value, rest))
    fun {input value rest} h => by
      cases eq : expect (Bytes.ofText more) input with
      | error failure => rw [eq] at h; cases h
      | ok rest' =>
        rw [eq] at h
        cases h
        exact length_le_of_expect eq

/-! ### Lists -/

/-- What stands at a place where an item or the end of a list may stand. -/
inductive NextItem where
  | item (rest : Bytes)
  /-- The closing bracket has been taken. -/
  | done (rest : Bytes)

/-- Looks for the next item of a list: the first one follows the bracket, all others a comma. -/
def nextItem (first : Bool) (input : Bytes) : Except Failure NextItem :=
  match skipBlanks input with
  | [] => .error .unfinished
  | b :: rest =>
    if b = ascii ']' then .ok (.done rest)
    else if first then .ok (.item (b :: rest))
    else if b = ascii ',' then
      match skipBlanks rest with
      | [] => .error .unfinished
      | c :: rest => if c = ascii ']' then .error .malformed else .ok (.item (c :: rest))
    else .error .malformed

theorem length_le_of_nextItem {first : Bool} {input rest : Bytes}
    (h : nextItem first input = .ok (.item rest)) : rest.length ≤ input.length := by
  have le := length_skipBlanks_le input
  unfold nextItem at h
  split at h
  · cases h
  next b rest' eq =>
    rw [eq] at le
    split at h
    · cases h
    · split at h
      · cases h
        exact le
      · split at h
        · have le' := length_skipBlanks_le rest'
          split at h
          · cases h
          next c rest'' eq' =>
            rw [eq'] at le'
            split at h
            · cases h
            · cases h
              simp only [List.length_cons] at *
              omega
        · cases h

theorem length_lt_of_nextItem {first : Bool} {input rest : Bytes}
    (h : nextItem first input = .ok (.done rest)) : rest.length < input.length := by
  have le := length_skipBlanks_le input
  unfold nextItem at h
  split at h
  · cases h
  next b rest' eq =>
    rw [eq] at le
    split at h
    · cases h
      exact le
    · split at h
      · cases h
      · split at h
        · split at h
          · cases h
          · split at h <;> cases h
        · cases h

/-- The closing bracket of a list, where no further item is wanted. -/
def closeList (input : Bytes) : Except Failure Bytes :=
  match skipBlanks input with
  | [] => .error .unfinished
  | b :: rest => if b = ascii ']' then .ok rest else .error .malformed

theorem length_lt_of_closeList {input rest : Bytes} (h : closeList input = .ok rest) :
    rest.length < input.length := by
  have le := length_skipBlanks_le input
  unfold closeList at h
  split at h
  · cases h
  next b rest' eq =>
    rw [eq] at le
    split at h
    · cases h
      exact le
    · cases h

/-- Reads items up to and including the closing bracket. -/
def runItems (item : Reader α) (first : Bool) (input : Bytes) :
    Except Failure (List α × Bytes) :=
  match _next : nextItem first input with
  | .error failure => .error failure
  | .ok (.done rest) => .ok ([], rest)
  | .ok (.item text) =>
    match _run : item.run text with
    | .error failure => .error failure
    | .ok (value, rest) =>
      match runItems item false rest with
      | .error failure => .error failure
      | .ok (values, rest) => .ok (value :: values, rest)
termination_by input.length
decreasing_by
  exact Nat.lt_of_lt_of_le (item.shrinks _run) (length_le_of_nextItem _next)

theorem length_lt_of_runItems {item : Reader α} {first : Bool} {input rest : Bytes}
    {values : List α} (h : runItems item first input = .ok (values, rest)) :
    rest.length < input.length := by
  induction input using WellFounded.induction (measure List.length).wf
    generalizing first values with
  | _ input ih =>
    rw [runItems] at h
    split at h
    · cases h
    next done =>
      cases h
      exact length_lt_of_nextItem done
    next text next =>
      split at h
      · cases h
      next value rest' run =>
        have lt := Nat.lt_of_lt_of_le (item.shrinks run) (length_le_of_nextItem next)
        split at h
        · cases h
        next values' rest'' more =>
          cases h
          exact Nat.lt_trans (ih _ lt more) lt

/-- The items of a list whose opening bracket has been taken. -/
def items (item : Reader α) : Reader (List α) where
  run := runItems item true
  shrinks := length_lt_of_runItems

end Reader

end CommandWire.Json
