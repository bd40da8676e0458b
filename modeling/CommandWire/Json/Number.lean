import CommandWire.Double.Shortest
import CommandWire.Json.Reader

/-!
# Numbers

A number without fraction and exponent that fits the 64-bit integers is an integer; all others
are doubles, the negative zero among them. A number is read as a whole before anyone asks what
type was wanted.

A double is built from a significand and a power of ten. Integer digits go into the significand
while it stays below `2 ^ 64`; from the first digit that does not fit on they only count. Digits
of the fraction are tried anew: they go in while they fit, and are dropped from the first one on
that does not. The nearest double to the significand is then multiplied or divided by the nearest
double to the power of ten, rounding once more (`scaleByTen`). So reading is not always to the
nearest double.
-/

namespace CommandWire.Json

/-- A number as it stands in a text. -/
inductive Number where
  | integer (n : Int)
  | double (x : Double)
deriving DecidableEq

/-- The number as a double. -/
def Number.toDouble : Number → Double
  | .integer n => .ofInt n
  | .double x => x

/-! ### Digits -/

def isDigit (b : UInt8) : Bool := 48 ≤ b && b ≤ 57

/-- The number that a decimal digit stands for. -/
def digitValue (b : UInt8) : Nat := b.toNat - 48

/-- The decimal digits of a number. -/
def writeNat (n : Nat) : Bytes :=
  if n < 10 then [UInt8.ofNat (48 + n)] else writeNat (n / 10) ++ [UInt8.ofNat (48 + n % 10)]
termination_by n

/-- The decimal digits of a number, after a minus if it is negative. -/
def writeInt (n : Int) : Bytes :=
  if n < 0 then ascii '-' :: writeNat n.natAbs else writeNat n.natAbs

/-- Significands are kept below this bound. -/
def significandBound : Nat := 0x10000000000000000

/-- A significand together with the power of ten that scales it, while digits are taken in. -/
structure Significand where
  value : Nat
  /-- No further digit is taken into the value. -/
  full : Bool
  exponent : Int

namespace Significand

/-- Takes a digit of the integer part. -/
def takeInteger (s : Significand) (b : UInt8) : Significand :=
  let value := 10 * s.value + digitValue b
  if s.full || significandBound ≤ value then { s with full := true, exponent := s.exponent + 1 }
  else { s with value }

/-- Takes a digit of the fraction. -/
def takeFraction (s : Significand) (b : UInt8) : Significand :=
  let value := 10 * s.value + digitValue b
  if s.full || significandBound ≤ value then { s with full := true }
  else { s with value, exponent := s.exponent - 1 }

end Significand

/-! ### Scaling -/

/-- Divides by the power of ten `10 ^ k`, in steps of at most `10 ^ 308`. -/
def divideByTen (x : Double) (k : Nat) : Double :=
  if x.isZero then x
  else if k ≤ 308 then x.div (.powerOfTen k)
  else divideByTen (x.div (.powerOfTen 308)) (k - 308)
termination_by k

/-- The double nearest to the significand, scaled by a power of ten; none if that is infinite. -/
def scaleByTen (significand : Nat) (exponent : Int) : Option Double :=
  let x := Double.ofNat significand
  if exponent < 0 then some (divideByTen x exponent.natAbs)
  else if x.isZero then some x
  else if 308 < exponent then none
  else
    let x := x.mul (.powerOfTen exponent.natAbs)
    if x.isFinite then some x else none

/-! ### Reading -/

/-- The digits in front and the text after them; a digit must stand there. -/
def takeDigits (input : Bytes) : Except Failure (Bytes × Bytes) :=
  match input with
  | [] => .error .unfinished
  | b :: _ =>
    if isDigit b then .ok (input.takeWhile isDigit, input.dropWhile isDigit)
    else .error .malformed

theorem length_lt_of_takeDigits {input digits rest : Bytes}
    (h : takeDigits input = .ok (digits, rest)) : rest.length < input.length := by
  unfold takeDigits at h
  split at h
  · cases h
  next b tail =>
    split at h
    next digit =>
      cases h
      rw [List.dropWhile_cons, if_pos digit, List.length_cons]
      exact Nat.lt_succ_of_le (List.dropWhile_suffix isDigit).length_le
    · cases h

/-- The integer digits in front: a zero stands alone. -/
def takeIntegerDigits (input : Bytes) : Except Failure (Bytes × Bytes) :=
  match takeDigits input with
  | .error failure => .error failure
  | .ok (digits, rest) =>
    if digits.head? = some (ascii '0') ∧ 1 < digits.length then .error .malformed
    else .ok (digits, rest)

theorem length_lt_of_takeIntegerDigits {input digits rest : Bytes}
    (h : takeIntegerDigits input = .ok (digits, rest)) : rest.length < input.length := by
  unfold takeIntegerDigits at h
  split at h
  · cases h
  next eq =>
    split at h
    · cases h
    · cases h
      exact length_lt_of_takeDigits eq

/-- The number before an exponent. -/
structure Mantissa where
  negative : Bool
  significand : Significand
  /-- Neither a point nor a dropped digit has been met. -/
  whole : Bool

namespace Mantissa

/-- The number that a significand and a power of ten stand for; out of range it is malformed. -/
def scaled (m : Mantissa) (exponent : Int) : Except Failure Number :=
  match scaleByTen m.significand.value exponent with
  | some x => .ok (.double (if m.negative then x.neg else x))
  | none => .error .malformed

/-- The number that no exponent follows. A whole one is an integer if it fits 64 bits, but the
negative zero is a double. -/
def number (m : Mantissa) : Except Failure Number :=
  let value := m.significand.value
  if !m.whole then m.scaled m.significand.exponent
  else if !m.negative then .ok (.integer value)
  else if value = 0 ∨ 0x8000000000000000 < value then m.scaled 0
  else .ok (.integer (-value))

/-- Exponents are kept within 32 bits. -/
def exponentBound : Int := 0x80000000

/-- The number that an exponent follows. A written exponent out of bounds leaves nothing but a
zero, or is itself out of range. -/
def numberWithExponent (m : Mantissa) (down : Bool) (digits : Bytes) : Except Failure Number :=
  let n : Nat := digits.foldl (fun n b => 10 * n + digitValue b) 0
  if n < exponentBound then
    let exponent := if down then m.significand.exponent - n else m.significand.exponent + n
    -- What is out of bounds here is far out of the range of doubles as well.
    m.scaled (max (-exponentBound) (min (exponentBound - 1) exponent))
  else if m.significand.value = 0 ∨ down then m.scaled (-exponentBound)
  else .error .malformed

end Mantissa

/-- The number before an exponent, and the text after it. -/
def readMantissa (negative : Bool) (input : Bytes) : Except Failure (Mantissa × Bytes) :=
  match takeIntegerDigits input with
  | .error failure => .error failure
  | .ok (digits, rest) =>
    let s := digits.foldl Significand.takeInteger ⟨0, false, 0⟩
    match rest with
    | [] => .ok (⟨negative, s, !s.full⟩, [])
    | b :: rest' =>
      if b = ascii '.' then
        match takeDigits rest' with
        | .error failure => .error failure
        | .ok (digits, rest) =>
          let s := digits.foldl Significand.takeFraction { s with full := false }
          .ok (⟨negative, s, false⟩, rest)
      else .ok (⟨negative, s, !s.full⟩, rest)

theorem length_lt_of_readMantissa {negative : Bool} {input rest : Bytes} {m : Mantissa}
    (h : readMantissa negative input = .ok (m, rest)) : rest.length < input.length := by
  unfold readMantissa at h
  split at h
  · cases h
  next digits rest₁ integer =>
    have lt := length_lt_of_takeIntegerDigits integer
    split at h
    · cases h
      exact lt
    next b rest₂ =>
      split at h
      · split at h
        · cases h
        next fraction =>
          cases h
          have := length_lt_of_takeDigits fraction
          simp only [List.length_cons] at lt
          omega
      · cases h
        exact lt

/-- The sign of an exponent, whether it is a minus, and the text after it. -/
def exponentSign : Bytes → Bool × Bytes
  | [] => (false, [])
  | b :: rest =>
    if b = ascii '-' then (true, rest)
    else if b = ascii '+' then (false, rest)
    else (false, b :: rest)

theorem length_exponentSign_le (input : Bytes) :
    (exponentSign input).2.length ≤ input.length := by
  unfold exponentSign
  split
  · exact Nat.le_refl _
  · split
    · exact Nat.le_succ _
    · split
      · exact Nat.le_succ _
      · exact Nat.le_refl _

/-- The exponent after a mantissa, if there is one, and with it the number. -/
def readExponent (m : Mantissa) (input : Bytes) : Except Failure (Number × Bytes) :=
  match input with
  | [] => m.number.map fun number => (number, [])
  | b :: rest =>
    if b = ascii 'e' || b = ascii 'E' then
      match takeDigits (exponentSign rest).2 with
      | .error failure => .error failure
      | .ok (digits, rest') =>
        (m.numberWithExponent (exponentSign rest).1 digits).map fun number => (number, rest')
    else m.number.map fun number => (number, b :: rest)

theorem rest_eq_of_map {α : Type} {result : Except Failure α} {rest rest' : Bytes} {value : α}
    (h : result.map (fun value => (value, rest)) = .ok (value, rest')) : rest = rest' := by
  cases result <;> cases h
  rfl

theorem length_le_of_readExponent {m : Mantissa} {input rest : Bytes} {number : Number}
    (h : readExponent m input = .ok (number, rest)) : rest.length ≤ input.length := by
  unfold readExponent at h
  split at h
  · exact Nat.le_of_eq (congrArg List.length (rest_eq_of_map h)).symm
  next b tail =>
    split at h
    · split at h
      · cases h
      next digits rest' eq =>
        have lt := length_lt_of_takeDigits eq
        have le := length_exponentSign_le tail
        rw [← rest_eq_of_map h, List.length_cons]
        omega
    · exact Nat.le_of_eq (congrArg List.length (rest_eq_of_map h)).symm

/-- A number without its sign. -/
def readUnsigned (negative : Bool) (input : Bytes) : Except Failure (Number × Bytes) :=
  match readMantissa negative input with
  | .error failure => .error failure
  | .ok (m, rest) => readExponent m rest

theorem length_lt_of_readUnsigned {negative : Bool} {input rest : Bytes} {number : Number}
    (h : readUnsigned negative input = .ok (number, rest)) : rest.length < input.length := by
  unfold readUnsigned at h
  split at h
  · cases h
  next eq =>
    exact Nat.lt_of_le_of_lt (length_le_of_readExponent h) (length_lt_of_readMantissa eq)

/-- A number, signed or not. -/
def readNumber (input : Bytes) : Except Failure (Number × Bytes) :=
  match input with
  | [] => .error .unfinished
  | b :: rest => if b = ascii '-' then readUnsigned true rest else readUnsigned false (b :: rest)

theorem length_lt_of_readNumber {input rest : Bytes} {number : Number}
    (h : readNumber input = .ok (number, rest)) : rest.length < input.length := by
  unfold readNumber at h
  split at h
  · cases h
  · split at h
    · exact Nat.lt_succ_of_lt (length_lt_of_readUnsigned h)
    · exact length_lt_of_readUnsigned h

/-- Reads a number. -/
def Reader.number : Reader Number where
  run := readNumber
  shrinks := length_lt_of_readNumber

/-- A number starts with this byte. -/
def startsNumber (b : UInt8) : Bool := b = ascii '-' || isDigit b

end CommandWire.Json
