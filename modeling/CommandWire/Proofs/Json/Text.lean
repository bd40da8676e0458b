import CommandWire.Json.Text
import CommandWire.Proofs.Bytes.Ascii

/-!
# Quoted text is read back

A text between quotes is read back whatever its characters are and whatever follows the closing
quote (`readText_writeText`). Reading resolves what writing has escaped one character at a time
(`unescape_writeChar`); the bytes that are written as they are neither end a text nor begin an
escape.
-/

namespace CommandWire.Json

/-- A byte that stands for itself between quotes. -/
def IsPlainByte (b : UInt8) : Prop := b ≠ ascii '"' ∧ b ≠ ascii '\\' ∧ ¬ b < 32

/-- Plain bytes are taken as they are. -/
theorem unescape_append_of_plain {bytes : Bytes} (h : ∀ b ∈ bytes, IsPlainByte b)
    (taken rest : Bytes) :
    unescape taken (bytes ++ rest) = unescape (bytes.reverse ++ taken) rest := by
  induction bytes generalizing taken with
  | nil => rfl
  | cons b bytes ih =>
    obtain ⟨hquote, hescape, hcontrol⟩ := h b List.mem_cons_self
    rw [List.cons_append, unescape, if_neg hquote, if_neg hescape, if_neg hcontrol,
      ih fun b hb => h b (List.mem_cons_of_mem _ hb)]
    simp

/-- All bytes of a character outside ASCII are plain, and the byte of any other one is its code. -/
theorem isPlainByte_utf8EncodeChar {c : Char} (hquote : c ≠ '"') (hescape : c ≠ '\\')
    (hcontrol : ¬ c.toNat < 32) : ∀ b ∈ String.utf8EncodeChar c, IsPlainByte b := by
  have ofNat : ∀ n, 32 ≤ n → n < 256 → n ≠ 34 → n ≠ 92 → IsPlainByte (UInt8.ofNat n) := by
    intro n hlow hhigh h34 h92
    have hn : (UInt8.ofNat n).toNat = n := UInt8.toNat_ofNat_of_lt' hhigh
    refine ⟨fun h => h34 ?_, fun h => h92 ?_, ?_⟩
    · rw [← hn, h]
      rfl
    · rw [← hn, h]
      rfl
    · rw [UInt8.lt_iff_toNat_lt, hn]
      exact Nat.not_lt.2 hlow
  have hne : ∀ d : Char, c ≠ d → c.val.toNat ≠ d.val.toNat := fun d h hn =>
    h (Char.ext (UInt32.toNat_inj.1 hn))
  have h34 : c.val.toNat ≠ 34 := hne '"' hquote
  have h92 : c.val.toNat ≠ 92 := hne '\\' hescape
  have h32 : ¬ c.val.toNat < 32 := hcontrol
  intro b hb
  rw [String.utf8EncodeChar.eq_1] at hb
  split at hb
  next =>
    rw [List.mem_singleton.1 hb]
    exact ofNat _ (by omega) (by omega) h34 h92
  next =>
    -- Every byte here has the highest bit.
    have high : ∃ n, 128 ≤ n ∧ n < 256 ∧ b = UInt8.ofNat n := by
      split at hb
      next =>
        simp only [List.mem_cons, List.not_mem_nil, or_false] at hb
        rcases hb with rfl | rfl <;> exact ⟨_, by omega, by omega, rfl⟩
      next =>
        split at hb
        next =>
          simp only [List.mem_cons, List.not_mem_nil, or_false] at hb
          rcases hb with rfl | rfl | rfl <;> exact ⟨_, by omega, by omega, rfl⟩
        next =>
          simp only [List.mem_cons, List.not_mem_nil, or_false] at hb
          rcases hb with rfl | rfl | rfl | rfl <;> exact ⟨_, by omega, by omega, rfl⟩
    obtain ⟨n, hlow, hhigh, rfl⟩ := high
    exact ofNat n (by omega) hhigh (by omega) (by omega)

/-- A character is written as a short escape, as the code of a control character, or as its bytes,
which are plain then. -/
theorem writeChar_cases (c : Char) :
    (∃ letter, shortEscape? c = some letter ∧ writeChar c = [ascii '\\', ascii letter]) ∨
    (c.toNat < 32 ∧ writeChar c = [ascii '\\', ascii 'u', ascii '0', ascii '0',
      hexDigit (c.toNat / 16), hexDigit (c.toNat % 16)]) ∨
    (writeChar c = String.utf8EncodeChar c ∧ ∀ b ∈ String.utf8EncodeChar c, IsPlainByte b) := by
  rw [writeChar]
  split
  next letter hshort => exact .inl ⟨letter, hshort, rfl⟩
  next hshort =>
    split
    next hcontrol => exact .inr (.inl ⟨hcontrol, rfl⟩)
    next hcontrol =>
      refine .inr (.inr ⟨rfl, isPlainByte_utf8EncodeChar ?_ ?_ hcontrol⟩)
      · rintro rfl
        cases hshort
      · rintro rfl
        cases hshort

/-! ### Escapes -/

theorem hexValue?_hexDigit {n : Nat} (h : n < 16) : hexValue? (hexDigit n) = some n := by
  have : ∀ n, n < 16 → hexValue? (hexDigit n) = some n := by decide
  exact this n h

/-- The letter of a short escape stands for the character. -/
theorem escaped?_of_shortEscape? {c letter : Char} (h : shortEscape? c = some letter) :
    escaped? (ascii letter) = some c := by
  have named : ∀ d, some letter = some d → escaped? (ascii d) = some c →
      escaped? (ascii letter) = some c := by
    rintro d ⟨⟩ hd
    exact hd
  have coded : ∀ n, c.toNat = n → some (Char.ofNat n) = some c := by
    rintro n rfl
    rw [Char.ofNat_toNat]
  rw [shortEscape?] at h
  repeat' split at h
  case isTrue hc => exact named _ h.symm (by rw [hc]; rfl)
  case isTrue hc => exact named _ h.symm (by rw [hc]; rfl)
  case isTrue hc => exact named _ h.symm (coded 8 hc)
  case isTrue hc => exact named _ h.symm (coded 12 hc)
  case isTrue hc => exact named _ h.symm (by rw [hc]; rfl)
  case isTrue hc => exact named _ h.symm (by rw [hc]; rfl)
  case isTrue hc => exact named _ h.symm (by rw [hc]; rfl)
  case isFalse => cases h

/-- A control character is read back from its code. -/
theorem readEscape_control {c : Char} (h : c.toNat < 32) (rest : Bytes) :
    readEscape (ascii 'u' :: ascii '0' :: ascii '0' :: hexDigit (c.toNat / 16) ::
      hexDigit (c.toNat % 16) :: rest) = .ok (c, rest) := by
  have hcode : 4096 * 0 + 256 * 0 + 16 * (c.toNat / 16) + c.toNat % 16 = c.toNat := by omega
  have hunit : readCodeUnit (ascii '0' :: ascii '0' :: hexDigit (c.toNat / 16) ::
      hexDigit (c.toNat % 16) :: rest) = .ok (c.toNat, rest) := by
    rw [readCodeUnit, hexValue?_hexDigit (Nat.mod_lt _ (by decide)),
      hexValue?_hexDigit (Nat.div_lt_of_lt_mul (by omega))]
    exact congrArg (fun n => Except.ok (n, rest)) hcode
  have htrailing : isTrailingSurrogate c.toNat = false := by
    rw [isTrailingSurrogate, decide_eq_false_iff_not]
    omega
  have hleading : isLeadingSurrogate c.toNat = false := by
    rw [isLeadingSurrogate, decide_eq_false_iff_not]
    omega
  rw [readEscape, show escaped? (ascii 'u') = none from rfl]
  dsimp only
  rw [if_pos rfl, readUnicodeEscape, hunit]
  dsimp only
  rw [htrailing, hleading, if_neg Bool.false_ne_true, if_neg Bool.false_ne_true, Char.ofNat_toNat]

/-- What is written of a character is taken as its bytes. -/
theorem unescape_writeChar (c : Char) (taken rest : Bytes) :
    unescape taken (writeChar c ++ rest) =
      unescape ((String.utf8EncodeChar c).reverse ++ taken) rest := by
  have escape : ∀ escape tail, readEscape escape = .ok (c, tail) →
      unescape taken (ascii '\\' :: escape) =
        unescape ((String.utf8EncodeChar c).reverse ++ taken) tail := by
    intro escape tail h
    rw [unescape, if_neg (by decide), if_pos rfl]
    split
    next he =>
      rw [h] at he
      cases he
    next he =>
      rw [h] at he
      cases he
      rfl
  rcases writeChar_cases c with ⟨letter, hshort, h⟩ | ⟨hcontrol, h⟩ | ⟨h, hplain⟩
  · rw [h]
    refine escape (ascii letter :: rest) rest ?_
    rw [readEscape, escaped?_of_shortEscape? hshort]
  · rw [h]
    exact escape _ rest (readEscape_control hcontrol rest)
  · rw [h]
    exact unescape_append_of_plain hplain taken rest

/-! ### Texts -/

theorem unescape_flatMap_writeChar (cs : List Char) (taken rest : Bytes) :
    unescape taken (cs.flatMap writeChar ++ ascii '"' :: rest) =
      .ok (taken.reverse ++ cs.flatMap String.utf8EncodeChar, rest) := by
  induction cs generalizing taken with
  | nil =>
    rw [List.flatMap_nil, List.nil_append, unescape, if_pos rfl, List.flatMap_nil, List.append_nil]
  | cons c cs ih =>
    rw [List.flatMap_cons, List.append_assoc, unescape_writeChar, ih]
    simp

/-- The text whose opening quote has been taken is read up to its closing quote. -/
theorem readText_writeText (text : String) (rest : Bytes) :
    readText (text.toList.flatMap writeChar ++ ascii '"' :: rest) = .ok (text, rest) := by
  have htext : text.toList.flatMap String.utf8EncodeChar = Bytes.ofText text := by
    rw [← Bytes.ofText_ofList, String.ofList_toList]
  rw [readText, unescape_flatMap_writeChar, List.reverse_nil, List.nil_append, htext]
  dsimp only
  rw [Bytes.toText?_ofText]

end CommandWire.Json
