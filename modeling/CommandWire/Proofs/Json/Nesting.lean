import CommandWire.Proofs.Json.Reader

/-!
# How deeply a text nests

`nesting` is the greatest number of brackets that are open at once in a text. It is found in one
pass over the bytes, which knows nothing but brackets, quotes and backslashes.

How deeply a written value nests is found part by part: `Spans text within` says that the text needs
no more room than there is iff `within` holds of the room, wherever the text stands. Numbers, words
and quoted texts need none (`Flat`), a list of parts needs what its parts need (`spans_listed`), and
brackets need one more (`Spans.bracketed`).
-/

namespace CommandWire.Json

/-! ### Counting brackets -/

/-- Where in a text a byte stands. -/
inductive Place where
  | plain
  | quoted
  /-- Between quotes and behind a backslash. -/
  | escaped

/-- The byte is a bracket that opens an array or an object. -/
def opens (b : UInt8) : Bool := b = ascii '[' || b = ascii '{'

/-- The byte is a bracket that closes an array or an object. -/
def closes (b : UInt8) : Bool := b = ascii ']' || b = ascii '}'

/-- The greatest number of brackets that are open at once, where so many have been opened before. -/
def nestingFrom : Place → (depth : Nat) → Bytes → Nat
  | _, depth, [] => depth
  | .plain, depth, b :: text =>
    if b = ascii '"' then nestingFrom .quoted depth text
    else if opens b then nestingFrom .plain (depth + 1) text
    else if closes b then max depth (nestingFrom .plain (depth - 1) text)
    else nestingFrom .plain depth text
  | .quoted, depth, b :: text =>
    if b = ascii '"' then nestingFrom .plain depth text
    else if b = ascii '\\' then nestingFrom .escaped depth text
    else nestingFrom .quoted depth text
  | .escaped, depth, _ :: text => nestingFrom .quoted depth text

/-- The greatest number of brackets that are open at once. -/
def nesting (text : Bytes) : Nat := nestingFrom .plain 0 text

theorem nestingFrom_nil (place : Place) (depth : Nat) : nestingFrom place depth [] = depth := by
  cases place <;> rfl

/-- What has been opened before counts. -/
theorem le_nestingFrom (place : Place) (depth : Nat) (text : Bytes) :
    depth ≤ nestingFrom place depth text := by
  fun_induction nestingFrom place depth text
  case case1 => exact Nat.le_refl _
  case case3 ih => exact Nat.le_of_succ_le ih
  case case4 => exact Nat.le_max_left ..
  case case2 ih | case5 ih | case6 ih | case7 ih | case8 ih | case9 ih => exact ih

section Brackets

variable {b : UInt8} (depth : Nat) (text : Bytes)

theorem nestingFrom_of_opens (h : opens b = true) :
    nestingFrom .plain depth (b :: text) = nestingFrom .plain (depth + 1) text := by
  have hquote : b ≠ ascii '"' := by
    rintro rfl
    exact absurd h (by decide)
  rw [nestingFrom, if_neg hquote, if_pos h]

theorem nestingFrom_of_closes (h : closes b = true) :
    nestingFrom .plain depth (b :: text) = max depth (nestingFrom .plain (depth - 1) text) := by
  have hquote : b ≠ ascii '"' := by
    rintro rfl
    exact absurd h (by decide)
  have hopens : ¬ opens b = true := by
    intro hopens
    simp only [closes, opens, Bool.or_eq_true, decide_eq_true_eq] at h hopens
    obtain rfl | rfl := h
    · exact absurd hopens (by decide)
    · exact absurd hopens (by decide)
  rw [nestingFrom, if_neg hquote, if_neg hopens, if_pos h]

end Brackets

/-! ### Texts without brackets -/

/-- The text may be passed over when brackets are counted. -/
def Flat (text : Bytes) : Prop :=
  ∀ depth rest, nestingFrom .plain depth (text ++ rest) = nestingFrom .plain depth rest

/-- The byte does not matter, as long as it is not quoted. -/
def isFlat (b : UInt8) : Bool := b ≠ ascii '"' && !opens b && !closes b

theorem flat_of_all {text : Bytes} (h : text.all isFlat = true) : Flat text := by
  intro depth rest
  induction text with
  | nil => rfl
  | cons b text ih =>
    simp only [List.all_cons, isFlat, Bool.and_eq_true, decide_eq_true_eq, Bool.not_eq_true'] at h
    obtain ⟨⟨⟨hquote, hopens⟩, hcloses⟩, htext⟩ := h
    rw [List.cons_append, nestingFrom, if_neg hquote, hopens, if_neg Bool.false_ne_true, hcloses,
      if_neg Bool.false_ne_true, ih htext]

theorem Flat.append {text more : Bytes} (h : Flat text) (hmore : Flat more) :
    Flat (text ++ more) := by
  intro depth rest
  rw [List.append_assoc, h, hmore]

theorem isFlat_of_isDigit {b : UInt8} (h : isDigit b = true) : isFlat b = true := by
  have : ∀ b : Fin 256, isDigit (.ofNat b) = true → isFlat (.ofNat b) = true := by
    decide +kernel
  simpa using this ⟨b.toNat, b.toNat_lt⟩ (by simpa using h)

theorem flat_of_isDigits {digits : Bytes} (h : IsDigits digits) : Flat digits :=
  flat_of_all (List.all_eq_true.2 fun b hb => isFlat_of_isDigit (h.isDigit b hb))

theorem flat_writeInt (n : Int) : Flat (writeInt n) := by
  have hdigits := flat_of_isDigits (isDigits_writeNat n.natAbs)
  have hminus : Flat [ascii '-'] := flat_of_all rfl
  rw [writeInt]
  split
  next => exact hminus.append hdigits
  next => exact hdigits

/-- Plain bytes between quotes are passed over. -/
theorem nestingFrom_quoted_of_plain {bytes : Bytes} (h : ∀ b ∈ bytes, IsPlainByte b)
    (depth : Nat) (rest : Bytes) :
    nestingFrom .quoted depth (bytes ++ rest) = nestingFrom .quoted depth rest := by
  induction bytes with
  | nil => rfl
  | cons b bytes ih =>
    obtain ⟨⟨hquote, hescape, -⟩, hbytes⟩ := List.forall_mem_cons.1 h
    rw [List.cons_append, nestingFrom, if_neg hquote, if_neg hescape, ih hbytes]

theorem isPlainByte_hexDigit {n : Nat} (h : n < 16) : IsPlainByte (hexDigit n) := by
  have : ∀ n, n < 16 → hexDigit n ≠ ascii '"' ∧ hexDigit n ≠ ascii '\\' ∧ ¬ hexDigit n < 32 := by
    decide
  exact this n h

theorem nestingFrom_quoted_writeChar (c : Char) (depth : Nat) (rest : Bytes) :
    nestingFrom .quoted depth (writeChar c ++ rest) = nestingFrom .quoted depth rest := by
  have escape : ∀ letter text, nestingFrom .quoted depth (ascii '\\' :: letter :: text) =
      nestingFrom .quoted depth text := by
    intro letter text
    rw [nestingFrom, if_neg (by decide), if_pos rfl, nestingFrom]
  rcases writeChar_cases c with ⟨letter, _, h⟩ | ⟨hcontrol, h⟩ | ⟨h, hplain⟩
  · rw [h]
    exact escape (ascii letter) rest
  · have hplain : ∀ b ∈ [ascii '0', ascii '0', hexDigit (c.toNat / 16), hexDigit (c.toNat % 16)],
        IsPlainByte b := by
      have hzero : IsPlainByte (ascii '0') := isPlainByte_hexDigit (n := 0) (by decide)
      have hhigh : IsPlainByte (hexDigit (c.toNat / 16)) := isPlainByte_hexDigit (by omega)
      have hlow : IsPlainByte (hexDigit (c.toNat % 16)) :=
        isPlainByte_hexDigit (Nat.mod_lt _ (by decide))
      simp [hzero, hhigh, hlow]
    rw [h]
    exact (escape (ascii 'u') _).trans (nestingFrom_quoted_of_plain hplain depth rest)
  · rw [h]
    exact nestingFrom_quoted_of_plain hplain depth rest

/-- What is between quotes has no brackets, whatever the characters are. -/
theorem flat_writeText (text : String) : Flat (writeText text) := by
  intro depth rest
  rw [writeText, List.cons_append, nestingFrom, if_pos rfl, List.append_assoc]
  induction text.toList with
  | nil => rw [List.flatMap_nil, List.nil_append, List.singleton_append, nestingFrom, if_pos rfl]
  | cons c cs ih => rw [List.flatMap_cons, List.append_assoc, nestingFrom_quoted_writeChar, ih]

/-! ### The room that a text needs -/

/-- Wherever the text stands, it stays within the room iff `within` holds of the room. -/
def Spans (text : Bytes) (within : Nat → Prop) : Prop :=
  ∀ depth room rest, nestingFrom .plain depth (text ++ rest) ≤ depth + room ↔
    within room ∧ nestingFrom .plain depth rest ≤ depth + room

variable {text more : Bytes} {within within' : Nat → Prop}

theorem Spans.congr (h : Spans text within) (heq : ∀ room, within room ↔ within' room) :
    Spans text within' := by
  intro depth room rest
  rw [h, heq]

theorem Flat.spans (h : Flat text) : Spans text fun _ => True := by
  intro depth room rest
  rw [h, true_and]

theorem Spans.append (h : Spans text within) (hmore : Spans more within') :
    Spans (text ++ more) fun room => within room ∧ within' room := by
  intro depth room rest
  rw [List.append_assoc, h, hmore, and_assoc]

theorem Flat.append_spans (h : Flat text) (hmore : Spans more within) :
    Spans (text ++ more) within := by
  intro depth room rest
  rw [List.append_assoc, h, hmore]

theorem Spans.member (h : Spans text within) (key : String) :
    Spans (writeMember key text) within := by
  have hcolon : Flat [ascii ':'] := flat_of_all rfl
  exact (flat_writeText key).append_spans (hcolon.append_spans h)

/-- A part and the others, with a comma between them. -/
theorem Spans.listed_cons {parts : List Bytes} (h : Spans text within)
    (hparts : Spans (listed false parts) within') (first : Bool) :
    Spans (listed first (text :: parts)) fun room => within room ∧ within' room := by
  have hcomma : Flat [ascii ','] := flat_of_all rfl
  cases first with
  | true => exact h.append hparts
  | false => exact (hcomma.append_spans h).append hparts

theorem spans_listed_nil (first : Bool) : Spans (listed first []) fun _ => True :=
  Flat.spans fun _ _ => rfl

theorem spans_listed {ν : Type} {write : ν → Bytes} {within : ν → Nat → Prop} (parts : List ν)
    (h : ∀ x ∈ parts, Spans (write x) (within x)) (first : Bool) :
    Spans (listed first (parts.map write)) fun room => ∀ x ∈ parts, within x room := by
  induction parts generalizing first with
  | nil => exact (spans_listed_nil first).congr fun room => by simp
  | cons x parts ih =>
    obtain ⟨hx, hparts⟩ := List.forall_mem_cons.1 h
    exact (hx.listed_cons (ih hparts false) first).congr fun room =>
      (List.forall_mem_cons (p := fun x => within x room)).symm

/-- Brackets need some room for themselves. -/
theorem Spans.bracketed {parts : List Bytes} (h : Spans (listed true parts) within)
    {opening closing : Char} (hopens : opens (ascii opening) = true)
    (hcloses : closes (ascii closing) = true) :
    Spans (bracketed opening closing parts) fun room => ∃ d, room = d + 1 ∧ within d := by
  intro depth room rest
  rw [bracketed_eq, List.cons_append, nestingFrom_of_opens _ _ hopens, List.append_assoc,
    List.singleton_append]
  cases room with
  | zero =>
    -- The bracket alone does not fit.
    have hle := le_nestingFrom .plain (depth + 1) (listed true parts ++ ascii closing :: rest)
    refine iff_of_false (by omega) ?_
    rintro ⟨⟨d, hd, -⟩, -⟩
    cases hd
  | succ room =>
    -- The parts have what is left of the room, and what follows has all of it again.
    rw [show depth + (room + 1) = depth + 1 + room by omega, h, nestingFrom_of_closes _ _ hcloses,
      Nat.add_sub_cancel, Nat.max_le]
    simp

/-- A whole text nests no deeper than it is given room. -/
theorem Spans.nesting_le_iff (h : Spans text within) (room : Nat) :
    nesting text ≤ room ↔ within room := by
  have hspan := h 0 room []
  rw [List.append_nil, nestingFrom_nil, Nat.zero_add] at hspan
  rw [nesting, hspan]
  exact and_iff_left (Nat.zero_le room)

end CommandWire.Json
