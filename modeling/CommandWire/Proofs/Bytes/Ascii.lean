import CommandWire.Bytes

/-!
# ASCII bytes as text

Names travel as ASCII, which is the part of UTF-8 where a character is one byte. So a run of ASCII
bytes is always the text with those characters (`toText?_of_isAscii`), and a text is given back by
its bytes (`asciiText_ofText`). Whether the bytes of a text are ASCII can be seen from its characters
(`isAscii_ofText`).
-/

namespace CommandWire.Bytes

/-- The text whose characters have the bytes as their codes. -/
def asciiText (bytes : Bytes) : String := .ofList (bytes.map fun b => .ofNat b.toNat)

theorem ofText_ofList (cs : List Char) :
    ofText (.ofList cs) = cs.flatMap String.utf8EncodeChar := by
  simp [ofText, List.utf8Encode]

/-- A character below 128 is encoded as the byte with its code. -/
theorem utf8EncodeChar_ofNat {b : UInt8} (h : b < 128) :
    String.utf8EncodeChar (.ofNat b.toNat) = [b] := by
  have hb : b.toNat < 128 := h
  have hc : (Char.ofNat b.toNat).val.toNat = b.toNat := by
    have hv : b.toNat.isValidChar := Or.inl (by omega)
    rw [Char.ofNat, dif_pos hv]
    rfl
  unfold String.utf8EncodeChar
  simp only [hc]
  rw [if_pos (by omega), UInt8.ofNat_toNat]

theorem ofText_asciiText {bytes : Bytes} (h : bytes.isAscii) : ofText bytes.asciiText = bytes := by
  rw [asciiText, ofText_ofList]
  induction bytes with
  | nil => rfl
  | cons b bytes ih =>
    simp only [isAscii, List.all_cons, Bool.and_eq_true, decide_eq_true_eq] at h
    rw [List.map_cons, List.flatMap_cons, utf8EncodeChar_ofNat h.1, ih h.2]
    rfl

/-- ASCII bytes are never refused as text. -/
theorem toText?_of_isAscii {bytes : Bytes} (h : bytes.isAscii) :
    bytes.toText? = some bytes.asciiText := by
  have ht := toText?_ofText bytes.asciiText
  rwa [ofText_asciiText h] at ht

theorem asciiText_ofText {text : String} (h : (ofText text).isAscii) :
    (ofText text).asciiText = text := by
  have ht := toText?_ofText text
  rw [toText?_of_isAscii h] at ht
  exact Option.some.inj ht

/-! ### Texts that are not ASCII -/

theorem length_ofText (text : String) : (ofText text).length = text.utf8ByteSize := rfl

theorem ofNat_lt_128_iff {n : Nat} (h : n < 256) : UInt8.ofNat n < 128 ↔ n < 128 := by
  rw [UInt8.lt_iff_toNat_lt, UInt8.toNat_ofNat_of_lt' h]
  rfl

/-- A character is encoded as one byte below 128, or begins with a byte that is not. -/
theorem isAscii_utf8EncodeChar (c : Char) :
    isAscii (String.utf8EncodeChar c) = decide (c.toNat < 128) := by
  have hc : c.val.toNat = c.toNat := rfl
  -- The first of several bytes says how many there are, and is at least 192.
  have hseveral : ∀ {lead : Nat} {rest : Bytes}, ¬ c.toNat ≤ 127 → 192 ≤ lead → lead < 256 →
      isAscii (UInt8.ofNat lead :: rest) = decide (c.toNat < 128) := by
    intro lead rest hlarge hlow hhigh
    have hlead : ¬ UInt8.ofNat lead < 128 := by
      rw [ofNat_lt_128_iff hhigh]
      omega
    rw [isAscii, List.all_cons, decide_eq_false hlead, Bool.false_and,
      decide_eq_false (by omega)]
  unfold String.utf8EncodeChar
  dsimp only
  rw [hc]
  split
  next h =>
    have hlt : c.toNat < 256 := by omega
    simp [isAscii, ofNat_lt_128_iff hlt]
  next h =>
    split
    next => exact hseveral h (by omega) (by omega)
    next =>
      split
      next => exact hseveral h (by omega) (by omega)
      next => exact hseveral h (by omega) (by omega)

/-- The bytes of a text are ASCII if and only if its characters are. -/
theorem isAscii_ofText (text : String) :
    (ofText text).isAscii = text.toList.all (·.toNat < 128) := by
  have h : (ofText text).isAscii =
      text.toList.all fun c => isAscii (String.utf8EncodeChar c) := by
    rw [← String.ofList_toList (s := text), ofText_ofList, isAscii, List.all_flatMap,
      String.toList_ofList]
    rfl
  rw [h]
  simp only [isAscii_utf8EncodeChar]

end CommandWire.Bytes
