import CommandWire.Json.Write

/-!
# Numbers inside a text

A written number ends where no byte follows that could belong to it (`EndsNumber`). In front of such
a rest it is read as if it stood alone, and the rest is left: for a number of 64 bits the result is
the number itself (`readNumber_writeInt`); for a finite double it is whatever the decimal reads as
by itself (`readNumber_writeDouble_append`), because reading is not always to the nearest double.
-/

namespace CommandWire.Json

/-- A byte that can belong to a number which has begun. -/
def continuesNumber (b : UInt8) : Bool :=
  isDigit b || b = ascii '.' || b = ascii 'e' || b = ascii 'E'

/-- The text does not go on with a number. -/
def EndsNumber (rest : Bytes) : Prop := ∀ b, rest.head? = some b → continuesNumber b = false

theorem endsNumber_nil : EndsNumber [] := by
  intro b h
  cases h

theorem endsNumber_cons {b : UInt8} {rest : Bytes} (h : continuesNumber b = false) :
    EndsNumber (b :: rest) := by
  intro c hc
  cases hc
  exact h

/-! ### Digits -/

/-- A run of digits. -/
structure IsDigits (digits : Bytes) : Prop where
  ne_nil : digits ≠ []
  isDigit : ∀ b ∈ digits, isDigit b = true

theorem isDigit_ofNat {d : Nat} (h : d < 10) : isDigit (UInt8.ofNat (48 + d)) = true := by
  have : ∀ d, d < 10 → isDigit (UInt8.ofNat (48 + d)) = true := by decide
  exact this d h

theorem digitValue_ofNat {d : Nat} (h : d < 10) : digitValue (UInt8.ofNat (48 + d)) = d := by
  have : ∀ d, d < 10 → digitValue (UInt8.ofNat (48 + d)) = d := by decide
  exact this d h

theorem isDigits_zero : IsDigits [ascii '0'] where
  ne_nil := List.cons_ne_nil _ _
  isDigit := List.forall_mem_singleton.2 (by decide)

theorem isDigits_writeNat (n : Nat) : IsDigits (writeNat n) := by
  induction n using writeNat.induct with
  | case1 n h =>
    rw [writeNat, if_pos h]
    exact ⟨List.cons_ne_nil _ _, by simpa using isDigit_ofNat h⟩
  | case2 n h ih =>
    rw [writeNat, if_neg h]
    refine ⟨by simp, fun b hb => ?_⟩
    rcases List.mem_append.1 hb with hb | hb
    · exact ih.isDigit b hb
    · rw [List.mem_singleton.1 hb]
      exact isDigit_ofNat (Nat.mod_lt _ (by decide))

theorem IsDigits.append {digits more : Bytes} (h : IsDigits digits)
    (hmore : ∀ b ∈ more, Json.isDigit b = true) : IsDigits (digits ++ more) where
  ne_nil := by simp [h.ne_nil]
  isDigit b hb := (List.mem_append.1 hb).elim (h.isDigit b) (hmore b)

/-- Digits are taken up to the first byte that is none. -/
theorem takeDigits_append {digits rest : Bytes} (h : IsDigits digits)
    (hrest : ∀ b, rest.head? = some b → isDigit b = false) :
    takeDigits (digits ++ rest) = .ok (digits, rest) := by
  have htake : rest.takeWhile isDigit = [] ∧ rest.dropWhile isDigit = rest := by
    cases rest with
    | nil => exact ⟨rfl, rfl⟩
    | cons b rest => simp [hrest b rfl]
  cases digits with
  | nil => exact absurd rfl h.ne_nil
  | cons d digits =>
    rw [List.cons_append, takeDigits, if_pos (h.isDigit d List.mem_cons_self), ← List.cons_append,
      List.takeWhile_append_of_pos h.isDigit, List.dropWhile_append_of_pos h.isDigit,
      htake.1, htake.2, List.append_nil]

/-! ### Integers -/

/-- Only zero is written with a zero in front. -/
theorem head?_writeNat (n : Nat) : (writeNat n).head? = some (ascii '0') → n = 0 := by
  induction n using writeNat.induct with
  | case1 n h =>
    rw [writeNat, if_pos h]
    have : ∀ n, n < 10 → [UInt8.ofNat (48 + n)].head? = some (ascii '0') → n = 0 := by decide
    exact this n h
  | case2 n h ih =>
    obtain ⟨d, digits, hd⟩ := List.exists_cons_of_ne_nil (isDigits_writeNat (n / 10)).ne_nil
    rw [hd] at ih
    rw [writeNat, if_neg h, hd]
    intro h0
    have := ih h0
    omega

/-- A zero stands in front of other digits. -/
abbrev HasLeadingZero (digits : Bytes) : Prop :=
  digits.head? = some (ascii '0') ∧ 1 < digits.length

theorem not_hasLeadingZero_writeNat (n : Nat) : ¬ HasLeadingZero (writeNat n) := by
  rintro ⟨hzero, hlong⟩
  rw [head?_writeNat n hzero] at hlong
  exact absurd hlong (by decide +kernel)

theorem takeIntegerDigits_append {digits rest : Bytes} (h : IsDigits digits)
    (hrest : ∀ b, rest.head? = some b → isDigit b = false) :
    takeIntegerDigits (digits ++ rest) =
      if HasLeadingZero digits then .error .malformed else .ok (digits, rest) := by
  rw [takeIntegerDigits, takeDigits_append h hrest]

/-- By induction on the digits: a number that fits 64 bits never fills the significand. -/
theorem foldl_takeInteger_writeNat {n : Nat} (h : n < significandBound) :
    (writeNat n).foldl Significand.takeInteger ⟨0, false, 0⟩ = ⟨n, false, 0⟩ := by
  have step : ∀ {v d : Nat}, d < 10 → 10 * v + d < significandBound →
      Significand.takeInteger ⟨v, false, 0⟩ (UInt8.ofNat (48 + d)) = ⟨10 * v + d, false, 0⟩ := by
    intro v d hd hv
    rw [Significand.takeInteger, digitValue_ofNat hd]
    simp [Nat.not_le.2 hv]
  induction n using writeNat.induct with
  | case1 n hn =>
    rw [writeNat, if_pos hn, List.foldl_cons, step hn (by omega), Nat.mul_zero, Nat.zero_add]
    rfl
  | case2 n hn ih =>
    rw [writeNat, if_neg hn, List.foldl_append, ih (by omega), List.foldl_cons, List.foldl_nil,
      step (Nat.mod_lt _ (by decide)) (by omega)]
    congr 1
    omega

theorem isDigit_of_endsNumber {rest : Bytes} (h : EndsNumber rest) :
    ∀ b, rest.head? = some b → isDigit b = false := by
  intro b hb
  have := h b hb
  simp only [continuesNumber, Bool.or_eq_false_iff] at this
  exact this.1.1.1

/-- A mantissa that no exponent follows is the number. -/
theorem readExponent_of_endsNumber (m : Mantissa) {rest : Bytes} (h : EndsNumber rest) :
    readExponent m rest = m.number.map fun number => (number, rest) := by
  cases rest with
  | nil => rfl
  | cons b rest =>
    have hb := h b rfl
    simp only [continuesNumber, Bool.or_eq_false_iff] at hb
    rw [readExponent]
    simp [hb]

theorem readUnsigned_writeNat {n : Nat} (negative : Bool) (h : n < significandBound) {rest : Bytes}
    (hrest : EndsNumber rest) :
    readUnsigned negative (writeNat n ++ rest) =
      (Mantissa.number ⟨negative, ⟨n, false, 0⟩, true⟩).map fun number => (number, rest) := by
  have hm : readMantissa negative (writeNat n ++ rest) =
      .ok (⟨negative, ⟨n, false, 0⟩, true⟩, rest) := by
    rw [readMantissa, takeIntegerDigits_append (isDigits_writeNat n) (isDigit_of_endsNumber hrest),
      if_neg (not_hasLeadingZero_writeNat n)]
    dsimp only
    rw [foldl_takeInteger_writeNat h]
    cases rest with
    | nil => rfl
    | cons b rest =>
      have hb := hrest b rfl
      simp only [continuesNumber, Bool.or_eq_false_iff, decide_eq_false_iff_not] at hb
      simp [hb]
  rw [readUnsigned, hm]
  exact readExponent_of_endsNumber _ hrest

/-- A number of 64 bits, signed or not, is read back from its digits. -/
theorem readNumber_writeInt {n : Int} (hlow : -0x8000000000000000 ≤ n)
    (hhigh : n < 0x10000000000000000) {rest : Bytes} (hrest : EndsNumber rest) :
    readNumber (writeInt n ++ rest) = .ok (.integer n, rest) := by
  rw [writeInt]
  split
  next hneg =>
    have hn : n.natAbs < significandBound := by
      rw [significandBound]
      omega
    rw [List.cons_append, readNumber, if_pos rfl, readUnsigned_writeNat true hn hrest,
      Mantissa.number]
    have hsmall : ¬ (n.natAbs = 0 ∨ 0x8000000000000000 < n.natAbs) := by omega
    simp only [Bool.not_true, Bool.false_eq_true, if_false, if_neg hsmall, Except.map]
    congr 3
    omega
  next hneg =>
    have hn : n.natAbs < significandBound := by
      rw [significandBound]
      omega
    obtain ⟨d, digits, hd⟩ := List.exists_cons_of_ne_nil (isDigits_writeNat n.natAbs).ne_nil
    have hminus : d ≠ ascii '-' := by
      rintro rfl
      have hmem : ascii '-' ∈ writeNat n.natAbs := by
        rw [hd]
        exact List.mem_cons_self
      exact absurd ((isDigits_writeNat n.natAbs).isDigit _ hmem) (by decide)
    rw [hd, List.cons_append, readNumber, if_neg hminus, ← List.cons_append, ← hd,
      readUnsigned_writeNat false hn hrest, Mantissa.number]
    simp only [Bool.not_true, Bool.not_false, Bool.false_eq_true, if_false, if_true, Except.map]
    congr 3
    omega

theorem startsNumber_of_isDigit {b : UInt8} (h : isDigit b = true) : startsNumber b = true := by
  rw [startsNumber, h, Bool.or_true]

theorem startsNumber_writeInt (n : Int) :
    ∃ b more, writeInt n = b :: more ∧ startsNumber b = true := by
  obtain ⟨d, digits, hd⟩ := List.exists_cons_of_ne_nil (isDigits_writeNat n.natAbs).ne_nil
  have hdigit := (isDigits_writeNat n.natAbs).isDigit d (by rw [hd]; exact List.mem_cons_self)
  rw [writeInt, hd]
  split
  next => exact ⟨ascii '-', d :: digits, rfl, by decide⟩
  next => exact ⟨d, digits, rfl, startsNumber_of_isDigit hdigit⟩

/-! ### Decimals -/

/-- Nothing, or a point and digits. -/
def IsFraction (text : Bytes) : Prop :=
  text = [] ∨ ∃ digits, IsDigits digits ∧ text = ascii '.' :: digits

/-- Nothing, or an exponent with its sign. -/
def IsExponent (text : Bytes) : Prop :=
  text = [] ∨ ∃ sign digits, (sign = ascii '-' ∨ sign = ascii '+') ∧ IsDigits digits ∧
    text = ascii 'e' :: sign :: digits

/-- A decimal without sign. -/
inductive IsDecimal : Bytes → Prop
  | mk {integer fraction exponent : Bytes} : IsDigits integer → IsFraction fraction →
      IsExponent exponent → IsDecimal (integer ++ fraction ++ exponent)

theorem IsDecimal.exists_cons {text : Bytes} (h : IsDecimal text) :
    ∃ b more, text = b :: more ∧ Json.isDigit b = true := by
  obtain ⟨hi, _, _⟩ := h
  next integer _ _ _ _ =>
  obtain ⟨b, digits, rfl⟩ := List.exists_cons_of_ne_nil hi.ne_nil
  exact ⟨b, _, rfl, hi.isDigit b List.mem_cons_self⟩

/-- The digits in front of and behind the point are read alike wherever a number may end or go on
with an exponent. -/
theorem readMantissa_append (negative : Bool) {integer fraction : Bytes} (hi : IsDigits integer)
    (hf : IsFraction fraction) : ∃ result, ∀ rest,
      (∀ b, rest.head? = some b → isDigit b = false ∧ b ≠ ascii '.') →
      readMantissa negative (integer ++ fraction ++ rest) = Except.map (·, rest) result := by
  let s := integer.foldl Significand.takeInteger ⟨0, false, 0⟩
  rcases hf with rfl | ⟨digits, hd, rfl⟩
  · refine ⟨if HasLeadingZero integer then .error .malformed else .ok ⟨negative, s, !s.full⟩,
      fun rest hrest => ?_⟩
    rw [List.append_nil, readMantissa, takeIntegerDigits_append hi fun b hb => (hrest b hb).1]
    by_cases hz : HasLeadingZero integer
    · rw [if_pos hz, if_pos hz]
      rfl
    · rw [if_neg hz, if_neg hz]
      cases rest with
      | nil => rfl
      | cons b rest =>
        dsimp only
        rw [if_neg (hrest b rfl).2]
        rfl
  · let s' := digits.foldl Significand.takeFraction { s with full := false }
    refine ⟨if HasLeadingZero integer then .error .malformed else .ok ⟨negative, s', false⟩,
      fun rest hrest => ?_⟩
    have hpoint : ∀ b, (ascii '.' :: (digits ++ rest)).head? = some b → isDigit b = false := by
      rintro b ⟨⟩
      decide
    rw [List.append_assoc, List.cons_append, readMantissa, takeIntegerDigits_append hi hpoint]
    by_cases hz : HasLeadingZero integer
    · rw [if_pos hz, if_pos hz]
      rfl
    · rw [if_neg hz, if_neg hz]
      dsimp only
      rw [if_pos rfl, takeDigits_append hd fun b hb => (hrest b hb).1]
      rfl

theorem readExponent_append (m : Mantissa) {exponent : Bytes} (he : IsExponent exponent) :
    ∃ result, ∀ rest, EndsNumber rest →
      readExponent m (exponent ++ rest) = Except.map (·, rest) result := by
  rcases he with rfl | ⟨sign, digits, hs, hd, rfl⟩
  · exact ⟨m.number, fun rest hrest => readExponent_of_endsNumber m hrest⟩
  · refine ⟨m.numberWithExponent (sign = ascii '-') digits, fun rest hrest => ?_⟩
    have hsign : exponentSign (sign :: (digits ++ rest)) =
        (decide (sign = ascii '-'), digits ++ rest) := by
      rcases hs with rfl | rfl <;> rfl
    rw [List.cons_append, List.cons_append, readExponent, hsign,
      takeDigits_append hd (isDigit_of_endsNumber hrest)]
    rfl

/-- What a decimal is read as does not depend on what follows it. -/
theorem readUnsigned_append (negative : Bool) {text : Bytes} (h : IsDecimal text) :
    ∃ result, ∀ rest, EndsNumber rest →
      readUnsigned negative (text ++ rest) = Except.map (·, rest) result := by
  obtain ⟨hi, hf, he⟩ := h
  next integer fraction exponent =>
  have hrest : ∀ {rest}, EndsNumber rest → ∀ b, (exponent ++ rest).head? = some b →
      isDigit b = false ∧ b ≠ ascii '.' := by
    intro rest hrest b hb
    rcases he with rfl | ⟨sign, digits, _, _, rfl⟩
    · have := hrest b hb
      simp only [continuesNumber, Bool.or_eq_false_iff, decide_eq_false_iff_not] at this
      exact ⟨this.1.1.1, this.1.1.2⟩
    · cases hb
      decide
  obtain ⟨mantissa, hm⟩ := readMantissa_append negative hi hf
  cases mantissa with
  | error failure =>
    refine ⟨.error failure, fun rest h => ?_⟩
    rw [List.append_assoc, readUnsigned, hm _ (hrest h)]
    rfl
  | ok m =>
    obtain ⟨result, hr⟩ := readExponent_append m he
    refine ⟨result, fun rest h => ?_⟩
    rw [List.append_assoc, readUnsigned, hm _ (hrest h)]
    exact hr rest h

/-! ### Doubles -/

theorem isDigit_replicate (count : Nat) :
    ∀ b ∈ List.replicate count (ascii '0'), isDigit b = true := by
  intro b hb
  rw [(List.mem_replicate.1 hb).2]
  decide

section

variable {digits : Bytes} (h : IsDigits digits)
include h

theorem IsDigits.take {n : Nat} (hn : 0 < n) : IsDigits (digits.take n) where
  ne_nil := by simp [h.ne_nil, Nat.ne_of_gt hn]
  isDigit b hb := h.isDigit b (List.mem_of_mem_take hb)

theorem IsDigits.drop {n : Nat} (hn : n < digits.length) : IsDigits (digits.drop n) where
  ne_nil := by simpa using hn
  isDigit b hb := h.isDigit b (List.mem_of_mem_drop hb)

theorem IsDigits.zeros_append (count : Nat) :
    IsDigits (List.replicate count (ascii '0') ++ digits) where
  ne_nil := by simp [h.ne_nil]
  isDigit b hb := (List.mem_append.1 hb).elim (isDigit_replicate _ b) (h.isDigit b)

end

/-- Wherever the point goes, what is written is a decimal. -/
theorem isDecimal_writeDigits {digits : Bytes} (h : IsDigits digits) (exponent : Int) :
    IsDecimal (writeDigits digits exponent) := by
  rw [writeDigits]
  split
  next =>
    split
    next =>
      -- All digits stand behind the point, perhaps after some zeros.
      rw [show Bytes.ofText "0." = [ascii '0'] ++ [ascii '.'] from rfl]
      simpa using IsDecimal.mk isDigits_zero (.inr ⟨_, h.zeros_append _, rfl⟩) (.inl rfl)
    next =>
      -- The point stands between the digits or behind them.
      have hi := (h.take (Nat.succ_pos exponent.toNat)).append
        (isDigit_replicate (exponent.toNat + 1 - digits.length))
      have hf : IsDigits (if digits.length ≤ exponent.toNat + 1 then [ascii '0']
          else digits.drop (exponent.toNat + 1)) := by
        split
        next => exact isDigits_zero
        next hlong => exact h.drop (Nat.not_le.1 hlong)
      simpa using IsDecimal.mk hi (.inr ⟨_, hf, rfl⟩) (.inl rfl)
  next =>
    have hf : IsFraction (if digits.length ≤ 1 then [] else ascii '.' :: digits.drop 1) := by
      split
      next => exact .inl rfl
      next hlong => exact .inr ⟨_, h.drop (Nat.not_le.1 hlong), rfl⟩
    refine .mk (h.take Nat.one_pos) hf (.inr ⟨_, _, ?_, isDigits_writeNat exponent.natAbs, rfl⟩)
    split
    next => exact .inl rfl
    next => exact .inr rfl

theorem isDecimal_writeDecimal (d : Decimal) : IsDecimal (writeDecimal d) :=
  isDecimal_writeDigits (isDigits_writeNat d.digits) _

theorem writeDouble_of_not_isFinite {x : Double} (hx : x.isFinite = false) :
    writeDouble x = Bytes.ofText "null" := by
  rw [writeDouble, hx, Bool.not_false, if_pos rfl]

theorem startsNumber_writeDouble {x : Double} (hx : x.isFinite) :
    ∃ b more, writeDouble x = b :: more ∧ startsNumber b = true := by
  obtain ⟨b, more, hb, hdigit⟩ := (isDecimal_writeDecimal x.shortest).exists_cons
  rw [writeDouble, hx, Bool.not_true, if_neg Bool.false_ne_true, hb]
  dsimp only
  split
  next => exact ⟨ascii '-', b :: more, rfl, by decide⟩
  next => exact ⟨b, more, rfl, startsNumber_of_isDigit hdigit⟩

/-- What a finite double is read back as does not depend on what follows it. -/
theorem readNumber_writeDouble_append {x : Double} (hx : x.isFinite) {rest : Bytes}
    (hrest : EndsNumber rest) :
    readNumber (writeDouble x ++ rest) =
      (readNumber (writeDouble x)).map fun (number, _) => (number, rest) := by
  have hd := isDecimal_writeDecimal x.shortest
  have hsame : ∃ result, ∀ rest, EndsNumber rest →
      readNumber (writeDouble x ++ rest) = Except.map (·, rest) result := by
    rw [writeDouble]
    simp only [hx, Bool.not_true, Bool.false_eq_true, if_false]
    split
    next =>
      obtain ⟨result, hr⟩ := readUnsigned_append true hd
      exact ⟨result, hr⟩
    next =>
      obtain ⟨result, hr⟩ := readUnsigned_append false hd
      refine ⟨result, fun rest h => ?_⟩
      rw [← hr rest h]
      obtain ⟨b, digits, hb, hdigit⟩ := hd.exists_cons
      have hminus : b ≠ ascii '-' := by
        rintro rfl
        exact absurd hdigit (by decide)
      rw [hb]
      exact if_neg hminus
  obtain ⟨result, hr⟩ := hsame
  have halone := hr [] endsNumber_nil
  rw [List.append_nil] at halone
  rw [hr rest hrest, halone]
  cases result <;> rfl

end CommandWire.Json
