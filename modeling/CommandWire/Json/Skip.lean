import CommandWire.Json.Number
import CommandWire.Json.Text

/-!
# Passing over a value

A value that nobody wants is passed over. It may nest to any depth, its numbers may be out of
range and its texts need not be UTF-8, but its tokens must be sound and in order. A number that
ends too early is malformed here, also where the whole text ends.

The open brackets are kept in a list, so passing over a value is one loop over the bytes.
-/

namespace CommandWire.Json

/-- Passes over a number. -/
def skipNumber (input : Bytes) : Except Failure Bytes :=
  let unsigned :=
    match input with
    | [] => []
    | b :: rest => if b = ascii '-' then rest else b :: rest
  match readMantissa false unsigned with
  | .error _ => .error .malformed
  | .ok (_, []) => .ok []
  | .ok (_, b :: rest) =>
    if b = ascii 'e' || b = ascii 'E' then
      match takeDigits (exponentSign rest).2 with
      | .error _ => .error .malformed
      | .ok (_, rest) => .ok rest
    else .ok (b :: rest)

theorem length_lt_of_skipNumber {input rest : Bytes} (h : skipNumber input = .ok rest) :
    rest.length < input.length := by
  have le : (match input with
      | [] => []
      | b :: rest => if b = ascii '-' then rest else b :: rest).length ≤ input.length := by
    split
    · exact Nat.le_refl _
    · split
      · exact Nat.le_succ _
      · exact Nat.le_refl _
  unfold skipNumber at h
  simp only at h
  split at h
  · cases h
  next eq =>
    cases h
    exact Nat.lt_of_lt_of_le (length_lt_of_readMantissa eq) le
  next b rest' eq =>
    have lt := Nat.lt_of_lt_of_le (length_lt_of_readMantissa eq) le
    split at h
    · split at h
      · cases h
      next digits =>
        cases h
        have := length_lt_of_takeDigits digits
        have := length_exponentSign_le rest'
        simp only [List.length_cons] at lt
        omega
    · cases h
      exact lt

/-- Passes over a word, a number or a text. -/
def skipScalar (input : Bytes) : Except Failure Bytes :=
  match input with
  | [] => .error .unfinished
  | b :: rest =>
    if b = ascii 'n' then Reader.expect (Bytes.ofText "ull") rest
    else if b = ascii 't' then Reader.expect (Bytes.ofText "rue") rest
    else if b = ascii 'f' then Reader.expect (Bytes.ofText "alse") rest
    else if startsNumber b then skipNumber (b :: rest)
    else if b = ascii '"' then skipText rest
    else .error .malformed

theorem length_lt_of_skipScalar {input rest : Bytes} (h : skipScalar input = .ok rest) :
    rest.length < input.length := by
  unfold skipScalar at h
  split at h
  · cases h
  · repeat' split at h
    · exact Nat.lt_succ_of_le (Reader.length_le_of_expect h)
    · exact Nat.lt_succ_of_le (Reader.length_le_of_expect h)
    · exact Nat.lt_succ_of_le (Reader.length_le_of_expect h)
    · exact length_lt_of_skipNumber h
    · exact Nat.lt_succ_of_lt (length_lt_of_skipText h)
    · cases h

/-- The colon between a key and its value. -/
def readColon (input : Bytes) : Except Failure Bytes :=
  match skipBlanks input with
  | [] => .error .unfinished
  | b :: rest => if b = ascii ':' then .ok rest else .error .malformed

theorem length_lt_of_readColon {input rest : Bytes} (h : readColon input = .ok rest) :
    rest.length < input.length := by
  have le := length_skipBlanks_le input
  unfold readColon at h
  split at h
  · cases h
  next b rest' eq =>
    rw [eq] at le
    split at h
    · cases h
      exact le
    · cases h

/-- Passes over a key and its colon. -/
def skipKey (input : Bytes) : Except Failure Bytes :=
  match skipBlanks input with
  | [] => .error .unfinished
  | b :: rest =>
    if b = ascii '"' then
      match skipText rest with
      | .error failure => .error failure
      | .ok rest => readColon rest
    else .error .malformed

theorem length_lt_of_skipKey {input rest : Bytes} (h : skipKey input = .ok rest) :
    rest.length < input.length := by
  have le := length_skipBlanks_le input
  unfold skipKey at h
  split at h
  · cases h
  next b rest' eq =>
    rw [eq] at le
    split at h
    · split at h
      · cases h
      next text =>
        have := length_lt_of_skipText text
        have := length_lt_of_readColon h
        simp only [List.length_cons] at le
        omega
    · cases h

/-- A bracket that has been opened. -/
inductive Bracket where
  | list
  | object
deriving DecidableEq

/-- The byte that closes the bracket. -/
def Bracket.close : Bracket → UInt8
  | list => ascii ']'
  | object => ascii '}'

/-- The bracket that a byte opens. -/
def Bracket.openedBy? (b : UInt8) : Option Bracket :=
  if b = ascii '[' then some list else if b = ascii '{' then some object else none

/-- What is to be passed over next. -/
inductive Awaited where
  | value
  /-- An item of the innermost bracket: in an object, a key comes before the value. -/
  | item
  /-- A further item of the innermost bracket or its end. -/
  | next (first : Bool)

/-- Goes up where a step consumes nothing. -/
def Awaited.rank : Awaited → Nat
  | value => 0
  | item => 1
  | next _ => 2

/-- Passes over what is awaited and over all that is still open. -/
def skip (awaited : Awaited) (brackets : List Bracket) (input : Bytes) : Except Failure Bytes :=
  match awaited with
  | .value =>
    match _eq : skipBlanks input with
    | [] => .error .unfinished
    | b :: rest =>
      match Bracket.openedBy? b with
      | some bracket => skip (.next true) (bracket :: brackets) rest
      | none =>
        match _scalar : skipScalar (b :: rest) with
        | .error failure => .error failure
        | .ok rest' => skip (.next false) brackets rest'
  | .item =>
    match brackets with
    | .object :: _ =>
      match _key : skipKey input with
      | .error failure => .error failure
      | .ok rest => skip .value brackets rest
    | _ => skip .value brackets input
  | .next first =>
    match brackets with
    | [] => .ok input
    | bracket :: outer =>
      match _eq : skipBlanks input with
      | [] => .error .unfinished
      | b :: rest =>
        if b = bracket.close then skip (.next false) outer rest
        else if first then skip .item (bracket :: outer) (b :: rest)
        else if b = ascii ',' then skip .item (bracket :: outer) rest
        else .error .malformed
termination_by (input.length, awaited.rank)
decreasing_by
  all_goals rw [Prod.lex_def]
  · exact .inl (length_lt_of_skipBlanks _eq)
  · have := length_lt_of_skipBlanks _eq
    have := length_lt_of_skipScalar _scalar
    exact .inl (by simp only [List.length_cons] at *; omega)
  · exact .inl (length_lt_of_skipKey _key)
  · exact .inr ⟨rfl, Nat.zero_lt_one⟩
  · exact .inl (length_lt_of_skipBlanks _eq)
  · have := length_lt_of_skipBlanks _eq
    simp only [List.length_cons, Awaited.rank]
    omega
  · exact .inl (length_lt_of_skipBlanks _eq)

theorem length_le_of_skip {awaited : Awaited} {brackets : List Bracket} {input rest : Bytes}
    (h : skip awaited brackets input = .ok rest) :
    rest.length ≤ input.length ∧ (awaited = .value → rest.length < input.length) := by
  fun_induction skip awaited brackets input with
  | case1 | case3 | case5 | case9 | case13 => cases h
  | case2 brackets input b rest' eq bracket _ ih =>
    have := ih h
    have := length_lt_of_skipBlanks eq
    omega
  | case4 brackets input b rest' eq _ rest'' scalar ih =>
    have := ih h
    have := length_lt_of_skipBlanks eq
    have := length_lt_of_skipScalar scalar
    simp only [List.length_cons] at *
    omega
  | case6 input outer rest' key ih =>
    have := ih h
    have := length_lt_of_skipKey key
    exact ⟨by omega, nofun⟩
  | case7 brackets input _ ih => exact ⟨(ih h).1, nofun⟩
  | case8 input first =>
    cases h
    exact ⟨Nat.le_refl _, nofun⟩
  | case10 input first bracket outer rest' eq ih =>
    have := ih h
    have := length_lt_of_skipBlanks eq
    exact ⟨by omega, nofun⟩
  | case11 input bracket outer b rest' eq _ ih =>
    have := ih h
    have := length_lt_of_skipBlanks eq
    simp only [List.length_cons] at *
    exact ⟨by omega, nofun⟩
  | case12 input first bracket outer rest' _ eq _ ih =>
    have := ih h
    have := length_lt_of_skipBlanks eq
    exact ⟨by omega, nofun⟩

/-- Passes over a value. -/
def Reader.skipped : Reader Unit where
  run input := (skip .value [] input).map fun rest => ((), rest)
  shrinks {input value rest} h := by
    cases eq : skip .value [] input with
    | error failure => rw [eq] at h; cases h
    | ok rest' =>
      rw [eq] at h
      cases h
      exact (length_le_of_skip eq).2 rfl

end CommandWire.Json
