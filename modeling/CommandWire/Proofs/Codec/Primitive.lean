import CommandWire.Codec.Primitive
import CommandWire.Proofs.Codec.Carrying

/-!
# Numbers of fixed width

A signed number survives its two's complement, and every run of bytes of the width is the numeral of
one number. So two bytes are a short number and nothing else (`ofShortBytes_shortBytes`,
`shortBytes_ofShortBytes`), and likewise for the other widths. The codecs of truth values, numbers
and doubles are faithful and relay.
-/

namespace CommandWire

/-- What a residue stands for lies in the range of signed numbers. -/
theorem Bytes.ofResidue_bounds {modulus n : Nat} (h : n < modulus) :
    -(modulus : Int) ≤ 2 * ofResidue modulus n ∧ 2 * ofResidue modulus n < modulus := by
  unfold ofResidue
  split <;> omega

/-- A number in the range of a width survives, most significant byte first. -/
theorem Bytes.ofResidue_bigEndian {width : Nat} {n : Int} (hlow : -(bound width : Int) ≤ 2 * n)
    (hhigh : 2 * n < bound width) (hb : 0 < bound width) :
    ofResidue (bound width) (ofBigEndian (bigEndian width (residue (bound width) n))) = n := by
  rw [ofBigEndian_bigEndian (residue_lt hb n), ofResidue_residue hlow hhigh]

/-- And least significant byte first. -/
theorem Bytes.ofResidue_littleEndian {width : Nat} {n : Int} (hlow : -(bound width : Int) ≤ 2 * n)
    (hhigh : 2 * n < bound width) (hb : 0 < bound width) :
    ofResidue (bound width) (ofLittleEndian (littleEndian width (residue (bound width) n))) =
      n := by
  rw [ofLittleEndian_littleEndian (residue_lt hb n), ofResidue_residue hlow hhigh]

@[simp] theorem length_shortBytes (n : Int16) : (shortBytes n).length = 2 :=
  Bytes.length_bigEndian 2 _

@[simp] theorem length_intBytes (n : Int32) : (intBytes n).length = 4 :=
  Bytes.length_bigEndian 4 _

@[simp] theorem length_longBytes (n : Int64) : (longBytes n).length = 8 :=
  Bytes.length_littleEndian 8 _

@[simp] theorem length_doubleBytes (x : Double) : (doubleBytes x).length = 8 :=
  Bytes.length_littleEndian 8 _

theorem ofShortBytes_shortBytes (n : Int16) : ofShortBytes (shortBytes n) = n := by
  have hb : Bytes.bound 2 = 65536 := rfl
  have hlow := n.le_toInt
  have hhigh := n.toInt_lt
  rw [ofShortBytes, shortBytes, Bytes.ofResidue_bigEndian (by omega) (by omega) (by omega),
    Int16.ofInt_toInt]

theorem ofIntBytes_intBytes (n : Int32) : ofIntBytes (intBytes n) = n := by
  have hb : Bytes.bound 4 = 0x100000000 := rfl
  have hlow := n.le_toInt
  have hhigh := n.toInt_lt
  rw [ofIntBytes, intBytes, Bytes.ofResidue_bigEndian (by omega) (by omega) (by omega),
    Int32.ofInt_toInt]

theorem ofLongBytes_longBytes (n : Int64) : ofLongBytes (longBytes n) = n := by
  have hb : Bytes.bound 8 = 0x10000000000000000 := rfl
  have hlow := n.le_toInt
  have hhigh := n.toInt_lt
  rw [ofLongBytes, longBytes, Bytes.ofResidue_littleEndian (by omega) (by omega) (by omega),
    Int64.ofInt_toInt]

/-- A double keeps its bits, those of a NaN included. -/
theorem ofDoubleBytes_doubleBytes (x : Double) : ofDoubleBytes (doubleBytes x) = x := by
  rw [ofDoubleBytes, doubleBytes, Bytes.ofLittleEndian_littleEndian x.bits.toNat_lt,
    UInt64.ofNat_toNat]

theorem shortBytes_ofShortBytes {bytes : Bytes} (h : bytes.length = 2) :
    shortBytes (ofShortBytes bytes) = bytes := by
  have hn : Bytes.ofBigEndian bytes < Bytes.bound 2 := h ▸ Bytes.ofBigEndian_lt bytes
  obtain ⟨hlow, hhigh⟩ := Bytes.ofResidue_bounds hn
  have hb : ((Bytes.bound 2 : Nat) : Int) = 65536 := rfl
  have hi : (ofShortBytes bytes).toInt =
      Bytes.ofResidue (Bytes.bound 2) (Bytes.ofBigEndian bytes) :=
    Int16.toInt_ofInt_of_le (by omega) (by omega)
  rw [shortBytes, hi, Bytes.residue_ofResidue hn, ← h, Bytes.bigEndian_ofBigEndian]

theorem intBytes_ofIntBytes {bytes : Bytes} (h : bytes.length = 4) :
    intBytes (ofIntBytes bytes) = bytes := by
  have hn : Bytes.ofBigEndian bytes < Bytes.bound 4 := h ▸ Bytes.ofBigEndian_lt bytes
  obtain ⟨hlow, hhigh⟩ := Bytes.ofResidue_bounds hn
  have hb : ((Bytes.bound 4 : Nat) : Int) = 0x100000000 := rfl
  have hi : (ofIntBytes bytes).toInt =
      Bytes.ofResidue (Bytes.bound 4) (Bytes.ofBigEndian bytes) :=
    Int32.toInt_ofInt_of_le (by omega) (by omega)
  rw [intBytes, hi, Bytes.residue_ofResidue hn, ← h, Bytes.bigEndian_ofBigEndian]

theorem longBytes_ofLongBytes {bytes : Bytes} (h : bytes.length = 8) :
    longBytes (ofLongBytes bytes) = bytes := by
  have hn : Bytes.ofLittleEndian bytes < Bytes.bound 8 := h ▸ Bytes.ofLittleEndian_lt bytes
  obtain ⟨hlow, hhigh⟩ := Bytes.ofResidue_bounds hn
  have hb : ((Bytes.bound 8 : Nat) : Int) = 0x10000000000000000 := rfl
  have hi : (ofLongBytes bytes).toInt =
      Bytes.ofResidue (Bytes.bound 8) (Bytes.ofLittleEndian bytes) :=
    Int64.toInt_ofInt_of_le (by omega) (by omega)
  rw [longBytes, hi, Bytes.residue_ofResidue hn, ← h, Bytes.littleEndian_ofLittleEndian]

theorem doubleBytes_ofDoubleBytes {bytes : Bytes} (h : bytes.length = 8) :
    doubleBytes (ofDoubleBytes bytes) = bytes := by
  have hn : Bytes.ofLittleEndian bytes < Bytes.bound 8 := h ▸ Bytes.ofLittleEndian_lt bytes
  have hbits : (ofDoubleBytes bytes).bits.toNat = Bytes.ofLittleEndian bytes :=
    UInt64.toNat_ofNat_of_lt' hn
  rw [doubleBytes, hbits, ← h, Bytes.littleEndian_ofLittleEndian]

/-! ### Codecs -/

namespace Codec

theorem bool_carries (value : Bool) : bool.Carries value (boolBytes value) value :=
  ofWidth_carries rfl (by cases value <;> rfl)

theorem short_carries (n : Int16) : short.Carries n (shortBytes n) n :=
  ofWidth_carries (length_shortBytes n) (by rw [ofShortBytes_shortBytes])

theorem int_carries (n : Int32) : int.Carries n (intBytes n) n :=
  ofWidth_carries (length_intBytes n) (by rw [ofIntBytes_intBytes])

theorem long_carries (n : Int64) : long.Carries n (longBytes n) n :=
  ofWidth_carries (length_longBytes n) (by rw [ofLongBytes_longBytes])

theorem double_carries (x : Double) : double.Carries x (doubleBytes x) x :=
  ofWidth_carries (length_doubleBytes x) (by rw [ofDoubleBytes_doubleBytes])

end Codec

end CommandWire
