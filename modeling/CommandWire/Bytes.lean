/-!
# Bytes

Everything that travels is a list of bytes. This module holds the readings of such a list: as a
natural number of fixed width, in either byte order; as a signed number in two's complement; as
hexadecimal digits; and as UTF-8 text.

Main statements: a number survives its numeral (`ofLittleEndian_littleEndian`), a numeral
survives its number (`littleEndian_ofLittleEndian`), and both have the declared width
(`length_littleEndian`); the same for the other byte order.
-/

namespace CommandWire

/-- A finite sequence of bytes. -/
abbrev Bytes := List UInt8

/-- The byte of an ASCII character. -/
@[inline] def ascii (c : Char) : UInt8 := UInt8.ofNat c.toNat

namespace Bytes

/-! ### Numerals of fixed width -/

/-- The least number that does not fit the width. -/
def bound : (width : Nat) → Nat
  | 0 => 1
  | width + 1 => 256 * bound width

/-- The `width` bytes of `n`, least significant first; what does not fit is dropped. -/
def littleEndian : (width n : Nat) → Bytes
  | 0, _ => []
  | width + 1, n => UInt8.ofNat n :: littleEndian width (n / 256)

/-- The number whose bytes these are, least significant first. -/
def ofLittleEndian : Bytes → Nat
  | [] => 0
  | b :: bytes => b.toNat + 256 * ofLittleEndian bytes

/-- The `width` bytes of `n`, most significant first. -/
def bigEndian (width n : Nat) : Bytes := (littleEndian width n).reverse

/-- The number whose bytes these are, most significant first. -/
def ofBigEndian (bytes : Bytes) : Nat := ofLittleEndian bytes.reverse

@[simp] theorem length_littleEndian (width n : Nat) : (littleEndian width n).length = width := by
  induction width generalizing n with
  | zero => rfl
  | succ width ih => simp [littleEndian, ih]

@[simp] theorem length_bigEndian (width n : Nat) : (bigEndian width n).length = width := by
  simp [bigEndian]

theorem ofLittleEndian_lt (bytes : Bytes) : ofLittleEndian bytes < bound bytes.length := by
  induction bytes with
  | nil => exact Nat.zero_lt_one
  | cons b bytes ih =>
    have hb : b.toNat < 256 := b.toNat_lt
    rw [ofLittleEndian, List.length_cons, bound]
    omega

theorem ofLittleEndian_littleEndian {width n : Nat} (h : n < bound width) :
    ofLittleEndian (littleEndian width n) = n := by
  induction width generalizing n with
  | zero => exact (Nat.lt_one_iff.1 h).symm
  | succ width ih =>
    rw [bound] at h
    rw [littleEndian, ofLittleEndian, ih (by omega)]
    simp only [UInt8.toNat_ofNat']
    omega

theorem littleEndian_ofLittleEndian (bytes : Bytes) :
    littleEndian bytes.length (ofLittleEndian bytes) = bytes := by
  induction bytes with
  | nil => rfl
  | cons b bytes ih =>
    have hb : b.toNat < 256 := b.toNat_lt
    rw [List.length_cons, ofLittleEndian, littleEndian]
    congr 1
    · apply UInt8.toNat_inj.1
      simp only [UInt8.toNat_ofNat']
      omega
    · rw [show (b.toNat + 256 * ofLittleEndian bytes) / 256 = ofLittleEndian bytes by omega, ih]

theorem ofBigEndian_lt (bytes : Bytes) : ofBigEndian bytes < bound bytes.length := by
  simpa [ofBigEndian] using ofLittleEndian_lt bytes.reverse

theorem ofBigEndian_bigEndian {width n : Nat} (h : n < bound width) :
    ofBigEndian (bigEndian width n) = n := by
  simp [ofBigEndian, bigEndian, ofLittleEndian_littleEndian h]

theorem bigEndian_ofBigEndian (bytes : Bytes) :
    bigEndian bytes.length (ofBigEndian bytes) = bytes := by
  have h := littleEndian_ofLittleEndian bytes.reverse
  rw [List.length_reverse] at h
  simp [ofBigEndian, bigEndian, h]

/-! ### Two's complement -/

/-- The residue that stands for `n` among `modulus` many. -/
def residue (modulus : Nat) (n : Int) : Nat := (n % modulus).toNat

/-- The signed number that the residue `n` stands for: the upper half is negative. -/
def ofResidue (modulus n : Nat) : Int := if 2 * n < modulus then n else (n : Int) - modulus

theorem residue_lt {modulus : Nat} (h : 0 < modulus) (n : Int) : residue modulus n < modulus := by
  unfold residue
  have := Int.emod_lt_of_pos n (b := modulus) (by omega)
  have := Int.emod_nonneg n (b := modulus) (by omega)
  omega

theorem ofResidue_residue {modulus : Nat} {n : Int} (low : -(modulus : Int) ≤ 2 * n)
    (high : 2 * n < modulus) : ofResidue modulus (residue modulus n) = n := by
  unfold ofResidue residue
  by_cases h : 0 ≤ n
  · rw [Int.emod_eq_of_lt h (by omega)]
    split <;> omega
  · have : n % modulus = n + modulus := by
      rw [← Int.add_emod_right, Int.emod_eq_of_lt (by omega) (by omega)]
    rw [this]
    split <;> omega

theorem residue_ofResidue {modulus n : Nat} (h : n < modulus) :
    residue modulus (ofResidue modulus n) = n := by
  unfold ofResidue residue
  split
  · rw [Int.emod_eq_of_lt (by omega) (by omega)]
    omega
  · rw [← Int.add_emod_right, Int.emod_eq_of_lt (by omega) (by omega)]
    omega

/-! ### Hexadecimal digits -/

/-- Two digits for each byte. -/
def toHex (bytes : Bytes) : String :=
  .ofList (bytes.flatMap fun b => (Nat.toDigits 16 (256 + b.toNat)).drop 1)

/-- The value of a hexadecimal digit. -/
def hexDigit? (c : Char) : Option Nat :=
  if '0' ≤ c ∧ c ≤ '9' then some (c.toNat - 48)
  else if 'A' ≤ c ∧ c ≤ 'F' then some (c.toNat - 55)
  else if 'a' ≤ c ∧ c ≤ 'f' then some (c.toNat - 87)
  else none

/-- The bytes with the given digits, after those that have been read already, in reverse. -/
def ofHexDigits? (done : Bytes) : List Char → Option Bytes
  | [] => some done.reverse
  | [_] => none
  | high :: low :: digits => do
    let byte := 16 * (← hexDigit? high) + (← hexDigit? low)
    ofHexDigits? (.ofNat byte :: done) digits

/-- The bytes with the given digits, if there are two for each byte. -/
def ofHex? (digits : String) : Option Bytes := ofHexDigits? [] digits.toList

/-! ### Text -/

/-- The UTF-8 bytes of a text. -/
def ofText (text : String) : Bytes := text.toUTF8.data.toList

/-- The text whose UTF-8 bytes these are, if there is one. -/
def toText? (bytes : Bytes) : Option String := String.fromUTF8? ⟨bytes.toArray⟩

/-- Every byte is an ASCII character. -/
def isAscii (bytes : Bytes) : Bool := bytes.all (· < 128)

theorem toText?_ofText (text : String) : toText? (ofText text) = some text := by
  have h : (⟨(ofText text).toArray⟩ : ByteArray) = text.toUTF8 := by simp [ofText]
  unfold toText?
  rw [h, String.fromUTF8?]
  have valid : text.toUTF8.IsValidUTF8 := text.isValidUTF8
  simp only [valid, ↓reduceDIte]
  rfl

end Bytes

end CommandWire
