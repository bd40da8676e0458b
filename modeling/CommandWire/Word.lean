/-!
# Words of a machine

Numbers in a machine are words of 32, 64 or 128 bits. A sum, a difference or a product that does not
fit into a word of the same width makes the machine stop (`Crash`): there is no answer any more, and
this is not a failure that a caller could go on after. To make a word narrower never does: either it
is asked whether the number fits (`WideWord.toWord?`), or the upper bits are gone (`WideWord.low`).
-/

namespace CommandWire

/-- Why the machine stops. -/
inductive Crash where
  | underflow | overflow | outOfBounds
deriving DecidableEq

namespace Crash

/-- A difference of words, which must not be negative. -/
def sub (a b : UInt64) : Except Crash UInt64 := if a < b then .error underflow else .ok (a - b)

/-- A sum of words, which must be a word. -/
def add (a b : UInt64) : Except Crash UInt64 := if a + b < a then .error overflow else .ok (a + b)

end Crash

/-- A word of 128 bits. -/
abbrev WideWord : Type := BitVec 128

namespace WideWord

/-- The same number in a wide word. -/
def ofWord (n : UInt64) : WideWord := n.toBitVec.setWidth 128

/-- A product of wide words, which must be a wide word. -/
def mul (a b : WideWord) : Except Crash WideWord :=
  if BitVec.umulOverflow a b then .error .overflow else .ok (a * b)

/-- The number as a word of 64 bits, if it is one. -/
def toWord? (n : WideWord) : Option UInt64 :=
  if n.toNat < UInt64.size then some (.ofNat n.toNat) else none

/-- The last 32 bits. -/
def low (n : WideWord) : UInt32 := .ofBitVec (n.setWidth 32)

end WideWord

end CommandWire
