/-!
# Doubles

A double is its 64 bits: a sign, eleven bits of exponent and 52 bits of fraction. Keeping the
bits keeps the payload of every NaN and the sign of every zero, so `=` on `Double` tells apart
whatever the wire tells apart. The comparison that the numbers themselves have is
`Double.sameNumber`.

A finite double stands for `significand · 2 ^ exponent`, and `Double.ofRatio` goes the other way:
it is the double nearest to a ratio of two natural numbers, computed exactly.
-/

namespace CommandWire

/-- A binary floating-point number of 64 bits. -/
structure Double where
  bits : UInt64
deriving DecidableEq

namespace Double

/-! ### Parts -/

/-- The sign bit. -/
def signBit : Nat := 0x8000000000000000

/-- The bit above the fraction: the lowest one of the exponent, and the hidden one of the
significand. -/
def hiddenBit : Nat := 0x10000000000000

/-- The sign bit is set. -/
def negative (x : Double) : Bool := signBit ≤ x.bits.toNat

/-- The eleven bits of exponent. -/
def biasedExponent (x : Double) : Nat := x.bits.toNat / hiddenBit % 2048

/-- The 52 bits of fraction. -/
def fraction (x : Double) : Nat := x.bits.toNat % hiddenBit

/-- Neither infinite nor NaN. -/
def isFinite (x : Double) : Bool := x.biasedExponent < 2047

def isNaN (x : Double) : Bool := x.biasedExponent = 2047 ∧ x.fraction ≠ 0

def isZero (x : Double) : Bool := x.biasedExponent = 0 ∧ x.fraction = 0

/-- The integer factor of a finite double, with the hidden bit of a normal one. -/
def significand (x : Double) : Nat :=
  if x.biasedExponent = 0 then x.fraction else x.fraction + hiddenBit

/-- The power of two that scales the significand of a finite double. -/
def exponent (x : Double) : Int := (max x.biasedExponent 1 : Nat) - 1075

/-- The two doubles are equal as numbers: a NaN equals nothing, and the two zeros are equal. -/
def sameNumber (x y : Double) : Bool :=
  !x.isNaN && !y.isNaN && (x = y || x.isZero && y.isZero)

/-! ### Rounding -/

/-- `n / d` to the nearest integer, a half to the even one. -/
def roundedQuotient (n d : Nat) : Nat :=
  let q := n / d
  let r := n % d
  if 2 * r < d ∨ 2 * r = d ∧ q % 2 = 0 then q else q + 1

/-- `n / d` scaled by `2 ^ shift`, again as a ratio. -/
def scaledRatio (n d : Nat) (shift : Int) : Nat × Nat :=
  if 0 ≤ shift then (n * Nat.pow 2 shift.toNat, d) else (n, d * Nat.pow 2 (-shift).toNat)

/-- The power of two in the last place of the double nearest to `n / d`: the integer part keeps
53 bits, or fewer where the exponent has reached its least value. -/
def lastPlace (n d : Nat) : Int :=
  let place : Int := (n.log2 : Int) - d.log2 - 53
  let (n', d') := scaledRatio n d (-place)
  -- The quotient of the leading powers of two is off by at most one place.
  max (-1074) (if n' / d' < 2 * hiddenBit then place else place + 1)

/-- The magnitude of positive infinity. -/
def infinityBits : Nat := 2047 * hiddenBit

/-- The double of the given sign nearest to `n / d`, a half to the even one; what lies beyond the
finite doubles becomes infinite. A significand that rounds up to `2 ^ 53` carries into the
exponent by itself, because the two are adjacent in the bits. -/
def ofRatio (negative : Bool) (n d : Nat) : Double :=
  let magnitude :=
    if n = 0 then 0
    else
      let place := lastPlace n d
      let (n', d') := scaledRatio n d (-place)
      min infinityBits ((place + 1074).toNat * hiddenBit + roundedQuotient n' d')
  ⟨UInt64.ofNat (if negative then signBit + magnitude else magnitude)⟩

/-- The double nearest to a natural number. -/
def ofNat (n : Nat) : Double := ofRatio false n 1

/-- The double nearest to an integer. -/
def ofInt (n : Int) : Double := ofRatio (n < 0) n.natAbs 1

/-- The same magnitude with the other sign. -/
def neg (x : Double) : Double := ⟨x.bits ^^^ 0x8000000000000000⟩

/-! ### Decimal scaling -/

/-- The product of two finite doubles, rounded to the nearest double. -/
def mul (x y : Double) : Double :=
  let (n, d) := scaledRatio (x.significand * y.significand) 1 (x.exponent + y.exponent)
  ofRatio (x.negative != y.negative) n d

/-- The quotient of two finite doubles, rounded to the nearest double. -/
def div (x y : Double) : Double :=
  let (n, d) := scaledRatio x.significand y.significand (x.exponent - y.exponent)
  ofRatio (x.negative != y.negative) n d

/-- The double nearest to `10 ^ k`. -/
def powerOfTen (k : Nat) : Double := ofNat (Nat.pow 10 k)

end Double

end CommandWire
