import CommandWire.Json.Reader

/-!
# Quoted text

A text is written between quotes. The quote, the backslash and everything below the blank are
written as escapes, all else as its UTF-8 bytes (`writeText`).

Reading takes the bytes up to the closing quote with the escapes resolved, and only then asks
whether they are UTF-8 (`readText`). A text that is skipped is not asked (`skipText`); its
escapes are looked at, but the code points that they name are not.
-/

namespace CommandWire.Json

/-! ### Writing -/

/-- The hexadecimal digit of a number below sixteen. -/
def hexDigit (n : Nat) : UInt8 := UInt8.ofNat (if n < 10 then 48 + n else 87 + n)

/-- The letter that follows the backslash in a short escape. -/
def shortEscape? (c : Char) : Option Char :=
  if c = '"' then some '"'
  else if c = '\\' then some '\\'
  else if c.toNat = 8 then some 'b'
  else if c.toNat = 12 then some 'f'
  else if c = '\n' then some 'n'
  else if c = '\r' then some 'r'
  else if c = '\t' then some 't'
  else none

/-- One character inside quotes. -/
def writeChar (c : Char) : Bytes :=
  match shortEscape? c with
  | some letter => [ascii '\\', ascii letter]
  | none =>
    if c.toNat < 32 then
      Bytes.ofText "\\u00" ++ [hexDigit (c.toNat / 16), hexDigit (c.toNat % 16)]
    else String.utf8EncodeChar c

/-- A text between quotes. -/
def writeText (text : String) : Bytes :=
  ascii '"' :: (text.toList.flatMap writeChar ++ [ascii '"'])

/-! ### Escapes -/

/-- The number that a hexadecimal digit stands for. -/
def hexValue? (b : UInt8) : Option Nat :=
  let n := b.toNat
  if 48 ≤ n ∧ n < 58 then some (n - 48)
  else if 65 ≤ n ∧ n < 71 then some (n - 55)
  else if 97 ≤ n ∧ n < 103 then some (n - 87)
  else none

/-- Four hexadecimal digits. Where fewer than four bytes are left, the text is unfinished,
whatever they are. -/
def readCodeUnit : Bytes → Except Failure (Nat × Bytes)
  | a :: b :: c :: d :: rest =>
    match hexValue? a, hexValue? b, hexValue? c, hexValue? d with
    | some a, some b, some c, some d => .ok (4096 * a + 256 * b + 16 * c + d, rest)
    | _, _, _, _ => .error .malformed
  | _ => .error .unfinished

theorem length_le_of_readCodeUnit {input rest : Bytes} {n : Nat}
    (h : readCodeUnit input = .ok (n, rest)) : rest.length ≤ input.length := by
  unfold readCodeUnit at h
  split at h
  · split at h
    · cases h
      simp only [List.length_cons]
      omega
    · cases h
  · cases h

/-- The code unit opens a pair of surrogates. -/
def isLeadingSurrogate (n : Nat) : Bool := 0xD800 ≤ n ∧ n < 0xDC00

/-- The code unit closes a pair of surrogates. -/
def isTrailingSurrogate (n : Nat) : Bool := 0xDC00 ≤ n ∧ n < 0xE000

/-- The character named by code units: one, or a pair of surrogates. -/
def readUnicodeEscape (input : Bytes) : Except Failure (Char × Bytes) :=
  match readCodeUnit input with
  | .error failure => .error failure
  | .ok (n, rest) =>
    if isTrailingSurrogate n then .error .malformed
    else if isLeadingSurrogate n then
      match Reader.expect (Bytes.ofText "\\u") rest with
      | .error failure => .error failure
      | .ok rest =>
        match readCodeUnit rest with
        | .error failure => .error failure
        | .ok (m, rest) =>
          if isTrailingSurrogate m then
            .ok (Char.ofNat (0x10000 + 0x400 * (n - 0xD800) + (m - 0xDC00)), rest)
          else .error .malformed
    else .ok (Char.ofNat n, rest)

theorem length_le_of_readUnicodeEscape {input rest : Bytes} {c : Char}
    (h : readUnicodeEscape input = .ok (c, rest)) : rest.length ≤ input.length := by
  unfold readUnicodeEscape at h
  split at h
  · cases h
  next n rest₁ unit =>
    have le := length_le_of_readCodeUnit unit
    split at h
    · cases h
    · split at h
      · split at h
        · cases h
        next rest₂ bridge =>
          have le' := Reader.length_le_of_expect bridge
          split at h
          · cases h
          next m rest₃ unit' =>
            have le'' := length_le_of_readCodeUnit unit'
            split at h
            · obtain ⟨_, rfl⟩ := Prod.mk.inj (Except.ok.inj h)
              omega
            · cases h
      · cases h
        exact le

/-- The character that a letter after a backslash stands for, `u` apart. -/
def escaped? (letter : UInt8) : Option Char :=
  if letter = ascii '"' then some '"'
  else if letter = ascii '\\' then some '\\'
  else if letter = ascii '/' then some '/'
  else if letter = ascii 'b' then some (Char.ofNat 8)
  else if letter = ascii 'f' then some (Char.ofNat 12)
  else if letter = ascii 'n' then some '\n'
  else if letter = ascii 'r' then some '\r'
  else if letter = ascii 't' then some '\t'
  else none

/-- The character of an escape whose backslash has been taken. -/
def readEscape : Bytes → Except Failure (Char × Bytes)
  | [] => .error .unfinished
  | letter :: rest =>
    match escaped? letter with
    | some c => .ok (c, rest)
    | none => if letter = ascii 'u' then readUnicodeEscape rest else .error .malformed

theorem length_lt_of_readEscape {input rest : Bytes} {c : Char}
    (h : readEscape input = .ok (c, rest)) : rest.length < input.length := by
  cases input with
  | nil => cases h
  | cons letter input =>
    rw [readEscape] at h
    split at h
    · cases h
      exact Nat.lt_succ_self _
    · split at h
      · exact Nat.lt_succ_of_le (length_le_of_readUnicodeEscape h)
      · cases h

/-- Passes over an escape whose backslash has been taken. -/
def skipEscape : Bytes → Except Failure Bytes
  | [] => .error .unfinished
  | letter :: rest =>
    if (escaped? letter).isSome then .ok rest
    else if letter = ascii 'u' then (readCodeUnit rest).map (·.2)
    else .error .malformed

theorem length_lt_of_skipEscape {input rest : Bytes} (h : skipEscape input = .ok rest) :
    rest.length < input.length := by
  cases input with
  | nil => cases h
  | cons letter input =>
    rw [skipEscape] at h
    split at h
    · cases h
      exact Nat.lt_succ_self _
    · split at h
      · cases eq : readCodeUnit input with
        | error failure => rw [eq] at h; cases h
        | ok pair =>
          rw [eq] at h
          cases h
          exact Nat.lt_succ_of_le (length_le_of_readCodeUnit eq)
      · cases h

/-! ### Reading -/

/-- The bytes up to the closing quote, with escapes resolved, after those in `taken` (which are
kept in reverse). -/
def unescape (taken input : Bytes) : Except Failure (Bytes × Bytes) :=
  match input with
  | [] => .error .unfinished
  | b :: rest =>
    if b = ascii '"' then .ok (taken.reverse, rest)
    else if b = ascii '\\' then
      match _escape : readEscape rest with
      | .error failure => .error failure
      | .ok (c, rest') => unescape ((String.utf8EncodeChar c).reverse ++ taken) rest'
    else if b < 32 then .error .malformed
    else unescape (b :: taken) rest
termination_by input.length
decreasing_by
  · exact Nat.lt_succ_of_lt (length_lt_of_readEscape _escape)
  · exact Nat.lt_succ_self _

theorem length_lt_of_unescape {taken input bytes rest : Bytes}
    (h : unescape taken input = .ok (bytes, rest)) : rest.length < input.length := by
  fun_induction unescape taken input with
  | case1 => cases h
  | case2 =>
    cases h
    exact Nat.lt_succ_self _
  | case3 => cases h
  | case4 taken rest' c rest'' escape _ ih =>
    exact Nat.lt_trans (ih h) (Nat.lt_succ_of_lt (length_lt_of_readEscape escape))
  | case5 => cases h
  | case6 taken b rest' _ _ _ ih => exact Nat.lt_succ_of_lt (ih h)

/-- A text whose opening quote has been taken. -/
def readText (input : Bytes) : Except Failure (String × Bytes) :=
  match unescape [] input with
  | .error failure => .error failure
  | .ok (bytes, rest) =>
    match Bytes.toText? bytes with
    | some text => .ok (text, rest)
    | none => .error .malformed

theorem length_lt_of_readText {input rest : Bytes} {text : String}
    (h : readText input = .ok (text, rest)) : rest.length < input.length := by
  unfold readText at h
  split at h
  · cases h
  next bytes rest' eq =>
    split at h
    · cases h
      exact length_lt_of_unescape eq
    · cases h

/-- Passes over a text whose opening quote has been taken. -/
def skipText (input : Bytes) : Except Failure Bytes :=
  match input with
  | [] => .error .unfinished
  | b :: rest =>
    if b = ascii '"' then .ok rest
    else if b = ascii '\\' then
      match _escape : skipEscape rest with
      | .error failure => .error failure
      | .ok rest' => skipText rest'
    else if b < 32 then .error .malformed
    else skipText rest
termination_by input.length
decreasing_by
  · exact Nat.lt_succ_of_lt (length_lt_of_skipEscape _escape)
  · exact Nat.lt_succ_self _

theorem length_lt_of_skipText {input rest : Bytes} (h : skipText input = .ok rest) :
    rest.length < input.length := by
  fun_induction skipText input with
  | case1 => cases h
  | case2 =>
    cases h
    exact Nat.lt_succ_self _
  | case3 => cases h
  | case4 rest' rest'' escape _ ih =>
    exact Nat.lt_trans (ih h) (Nat.lt_succ_of_lt (length_lt_of_skipEscape escape))
  | case5 => cases h
  | case6 b rest' _ _ _ ih => exact Nat.lt_succ_of_lt (ih h)

/-- Reads a text whose opening quote is in front. -/
def Reader.quoted : Reader String :=
  afterFirst readText fun h => Nat.le_of_lt (length_lt_of_readText h)

end CommandWire.Json
