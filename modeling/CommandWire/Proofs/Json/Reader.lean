import Mathlib.Data.List.Forall2
import CommandWire.Json.Read
import CommandWire.Json.Write
import CommandWire.Proofs.Json.Number
import CommandWire.Proofs.Json.Text

/-!
# Readers on written text

`Reader.Takes` says what a reader makes of a text that has been written: wherever the text stands in
front of something that does not continue a number, the reader takes it, all of it and nothing more,
for one of the given values, and for no other value. There may be no such value; then the reader
refuses. The notion is exact, so it goes through arrays item by item (`items_takes`,
`itemThen_takes`).

What is between brackets is written by `listed`: parts with commas between them, where the first
part may already have been written.
-/

namespace CommandWire.Json

/-! ### Parts with commas between them -/

/-- Parts one after the other, each but the first one after a comma. -/
def listed (first : Bool) : List Bytes → Bytes
  | [] => []
  | part :: parts => (if first then part else ascii ',' :: part) ++ listed false parts

theorem intercalate_eq_listed (parts : List Bytes) :
    List.intercalate [ascii ','] parts = listed true parts := by
  have later : ∀ (part : Bytes) (parts : List Bytes),
      List.intercalate [ascii ','] (part :: parts) = part ++ listed false parts := by
    intro part parts
    induction parts generalizing part with
    | nil => simp [List.intercalate, listed]
    | cons next parts ih =>
      have := ih next
      simp only [List.intercalate, List.intersperse, List.flatten_cons, listed] at this ⊢
      rw [this]
      simp
  cases parts with
  | nil => rfl
  | cons part parts => rw [later, listed, if_pos rfl]

theorem bracketed_eq (opening closing : Char) (parts : List Bytes) :
    bracketed opening closing parts = ascii opening :: (listed true parts ++ [ascii closing]) := by
  rw [bracketed, intercalate_eq_listed]

/-- The first byte of a value: no blank, no bracket that closes, and no comma. -/
def startsValue (b : UInt8) : Bool :=
  b = ascii 't' || b = ascii 'f' || b = ascii 'n' || b = ascii '"' || b = ascii '[' ||
    b = ascii '{' || b = ascii '-' || isDigit b

theorem startsValue_of_startsNumber {b : UInt8} (h : startsNumber b = true) :
    startsValue b = true := by
  simp only [startsNumber, startsValue, Bool.or_eq_true] at h ⊢
  tauto

theorem ne_of_startsNumber {b : UInt8} (h : startsNumber b = true) : b ≠ ascii 'n' := by
  rintro rfl
  exact absurd h (by decide)

/-- The text begins like a value. -/
def StartsValue (text : Bytes) : Prop := ∃ b more, text = b :: more ∧ startsValue b = true

theorem isBlank_of_startsValue {b : UInt8} (h : startsValue b = true) : isBlank b = false := by
  have : ∀ b : Fin 256, startsValue (.ofNat b) = true → isBlank (.ofNat b) = false := by
    decide +kernel
  simpa using this ⟨b.toNat, b.toNat_lt⟩ (by simpa using h)

theorem ne_of_startsValue {b : UInt8} (h : startsValue b = true) : b ≠ ascii ']' := by
  rintro rfl
  exact absurd h (by decide)

theorem skipBlanks_cons {b : UInt8} (h : isBlank b = false) (rest : Bytes) :
    skipBlanks (b :: rest) = b :: rest := by
  rw [skipBlanks, List.dropWhile_cons, h, if_neg Bool.false_ne_true]

/-- After a part there is a comma or the bracket, and neither continues a number. -/
theorem endsNumber_listed (parts : List Bytes) (closing : UInt8)
    (hclosing : continuesNumber closing = false) (rest : Bytes) :
    EndsNumber (listed false parts ++ closing :: rest) := by
  cases parts with
  | nil => exact endsNumber_cons hclosing
  | cons part parts => exact endsNumber_cons (by decide)

namespace Reader

variable {α β σ : Type}

/-! ### What readers take -/

theorem run_refine_eq_ok_iff {r : Reader α} {f : α → Option β} {input : Bytes} {b : β}
    {rest : Bytes} :
    (r.refine f).run input = .ok (b, rest) ↔ ∃ a, r.run input = .ok (a, rest) ∧ f a = some b := by
  rw [refine]
  dsimp only
  constructor
  · intro h
    split at h
    next => cases h
    next hrun =>
      split at h
      next hf =>
        cases h
        exact ⟨_, hrun, hf⟩
      next => cases h
  · rintro ⟨a, hrun, hf⟩
    rw [hrun]
    dsimp only
    rw [hf]

theorem run_map (r : Reader α) (f : α → β) (input : Bytes) :
    (r.map f).run input = (r.run input).map fun (value, rest) => (f value, rest) := by
  rw [map, refine]
  dsimp only
  cases r.run input <;> rfl

/-- The first byte that is not blank decides who reads. -/
theorem run_byFirst_eq_ok_iff {choose : UInt8 → Reader α} {input : Bytes} {result : α × Bytes} :
    (byFirst choose).run input = .ok result ↔
      ∃ b rest, skipBlanks input = b :: rest ∧ (choose b).run (b :: rest) = .ok result := by
  rw [byFirst]
  dsimp only
  cases skipBlanks input with
  | nil => simp
  | cons b rest => simp

theorem run_byFirst_cons (choose : UInt8 → Reader α) {b : UInt8} (h : isBlank b = false)
    (rest : Bytes) : (byFirst choose).run (b :: rest) = (choose b).run (b :: rest) := by
  rw [byFirst]
  dsimp only
  rw [skipBlanks_cons h]

/-- Where there is nothing to stand for missing items, there must be an item and then the others. -/
theorem run_itemThen_eq_ok_iff {first : Bool} {item : Reader α} {others : Reader β}
    {input rest : Bytes} {a : α} {b : β} :
    (itemThen first none item others).run input = .ok ((a, b), rest) ↔
      ∃ text more, nextItem first input = .ok (.item text) ∧ item.run text = .ok (a, more) ∧
        others.run more = .ok (b, rest) := by
  rw [itemThen]
  dsimp only
  constructor
  · intro h
    split at h
    next => cases h
    next => cases h
    next hnext =>
      split at h
      next => cases h
      next hitem =>
        split at h
        next => cases h
        next hothers =>
          cases h
          exact ⟨_, _, hnext, hitem, hothers⟩
  · rintro ⟨text, more, hnext, hitem, hothers⟩
    rw [hnext]
    dsimp only
    rw [hitem]
    dsimp only
    rw [hothers]

theorem run_followedBy_eq_ok_iff {r : Reader α} {next : Bytes → Except Failure Bytes}
    {le : ∀ {input rest}, next input = .ok rest → rest.length ≤ input.length}
    {input rest : Bytes} {a : α} :
    (r.followedBy next le).run input = .ok (a, rest) ↔
      ∃ more, r.run input = .ok (a, more) ∧ next more = .ok rest := by
  rw [followedBy]
  dsimp only
  constructor
  · intro h
    split at h
    next => cases h
    next hrun =>
      split at h
      next => cases h
      next hnext =>
        cases h
        exact ⟨_, hrun, hnext⟩
  · rintro ⟨more, hrun, hnext⟩
    rw [hrun]
    dsimp only
    rw [hnext]

/-! ### Written text -/

/-- In front of anything that does not continue a number, the reader takes the text as a whole, for
these values and for no others. -/
def Takes (r : Reader α) (text : Bytes) (values : α → Prop) : Prop :=
  ∀ rest, EndsNumber rest → ∀ value rest',
    r.run (text ++ rest) = .ok (value, rest') ↔ rest' = rest ∧ values value

variable {r : Reader α} {text : Bytes} {values : α → Prop} {b : UInt8}

theorem Takes.congr {values' : α → Prop} (h : r.Takes text values)
    (heq : ∀ a, values a ↔ values' a) : r.Takes text values' := by
  intro rest hrest value rest'
  rw [h rest hrest, heq]

/-! ### Choosing and refining -/

theorem refuse_takes (reason : Bytes → Failure) (text : Bytes) :
    (refuse reason : Reader α).Takes text fun _ => False := by
  intro rest _ value rest'
  constructor
  · intro h
    cases h
  · intro h
    cases h.2

theorem Takes.refine (h : r.Takes text values) (f : α → Option β) :
    (r.refine f).Takes text fun b => ∃ a, values a ∧ f a = some b := by
  intro rest hrest value rest'
  rw [run_refine_eq_ok_iff]
  constructor
  · rintro ⟨a, ha, hf⟩
    obtain ⟨rfl, hvalue⟩ := (h rest hrest _ _).1 ha
    exact ⟨rfl, a, hvalue, hf⟩
  · rintro ⟨rfl, a, hvalue, hf⟩
    exact ⟨a, (h _ hrest _ _).2 ⟨rfl, hvalue⟩, hf⟩

theorem Takes.map (h : r.Takes text values) (f : α → β) :
    (r.map f).Takes text fun b => ∃ a, values a ∧ f a = b :=
  (h.refine (some ∘ f)).congr fun b => by simp

/-- The first byte of a written value is not blank and chooses the reader. -/
theorem Takes.byFirst {choose : UInt8 → Reader α} (hb : isBlank b = false)
    (h : (choose b).Takes (b :: text) values) : (byFirst choose).Takes (b :: text) values := by
  intro rest hrest value rest'
  rw [← h rest hrest, List.cons_append, run_byFirst_cons choose hb]

/-- What follows the first byte is read by another reader. -/
theorem Takes.afterFirst (h : r.Takes text values)
    (le : ∀ {input value rest}, r.run input = .ok (value, rest) → rest.length ≤ input.length) :
    (Reader.afterFirst r.run le).Takes (b :: text) values :=
  h

/-- A bracket may be opened if there is some depth left. -/
theorem enter_takes {inner : Nat → Reader α} {values : Nat → α → Prop}
    (h : ∀ depth, (inner depth).Takes text (values depth)) (depth : Nat) :
    (enter inner depth).Takes (b :: text) fun a => ∃ d, depth = d + 1 ∧ values d a := by
  cases depth with
  | zero => exact (refuse_takes _ _).congr fun a => by simp
  | succ depth => exact Takes.congr (h depth) fun a => by simp

theorem mismatch_takes (text : Bytes) : (mismatch : Reader α).Takes text fun _ => False :=
  refuse_takes wrongKind text

/-- A whole text is read as what it is taken for. -/
theorem Takes.read (h : r.Takes text values) (value : α) :
    r.read text = .ok value ↔ values value := by
  have hrun := h [] endsNumber_nil
  rw [List.append_nil] at hrun
  rw [Reader.read]
  constructor
  · intro hread
    split at hread
    next => cases hread
    next hr =>
      obtain ⟨rfl, hvalue⟩ := (hrun _ _).1 hr
      cases hread
      exact hvalue
  · intro hvalue
    rw [(hrun _ _).2 ⟨rfl, hvalue⟩]
    rfl

/-! ### Words and texts -/

theorem expect_append (word rest : Bytes) : expect word (word ++ rest) = .ok rest := by
  induction word with
  | nil => rfl
  | cons w word ih => rw [List.cons_append, expect, if_pos rfl, ih]

theorem word_takes (more : String) (value : α) :
    (word more value).Takes (b :: Bytes.ofText more) (· = value) := by
  intro rest _ value' rest'
  show (expect (Bytes.ofText more) (Bytes.ofText more ++ rest)).map _ = _ ↔ _
  rw [expect_append]
  constructor
  · intro h
    cases h
    exact ⟨rfl, rfl⟩
  · intro h
    obtain ⟨rfl, rfl⟩ := h
    rfl

theorem quoted_takes (text : String) : quoted.Takes (writeText text) (· = text) := by
  intro rest _ value rest'
  show readText (text.toList.flatMap writeChar ++ [ascii '"'] ++ rest) = _ ↔ _
  rw [List.append_assoc, List.singleton_append, readText_writeText]
  constructor
  · intro h
    cases h
    exact ⟨rfl, rfl⟩
  · intro h
    obtain ⟨rfl, rfl⟩ := h
    rfl

/-! ### Items of arrays -/

theorem nextItem_close (first : Bool) (rest : Bytes) :
    nextItem first (ascii ']' :: rest) = .ok (.done rest) := by
  rw [nextItem, skipBlanks_cons (by decide)]
  rfl

/-- A written part is the next item, behind a comma unless it is the first. -/
theorem nextItem_item (first : Bool) {part : Bytes} (h : StartsValue part) (rest : Bytes) :
    nextItem first ((if first then part else ascii ',' :: part) ++ rest) =
      .ok (.item (part ++ rest)) := by
  obtain ⟨b, more, rfl, hb⟩ := h
  have hblank := isBlank_of_startsValue hb
  have hclose := ne_of_startsValue hb
  cases first with
  | true =>
    rw [if_pos rfl, List.cons_append, nextItem, skipBlanks_cons hblank]
    dsimp only
    rw [if_neg hclose, if_pos rfl]
  | false =>
    rw [if_neg Bool.false_ne_true, List.cons_append, List.cons_append, nextItem,
      skipBlanks_cons (by decide)]
    dsimp only
    rw [if_neg (by decide), if_neg Bool.false_ne_true, if_pos rfl, skipBlanks_cons hblank]
    dsimp only
    rw [if_neg hclose]

/-- The loop over items, one step unfolded. -/
theorem runItems_eq (item : Reader α) (first : Bool) (input : Bytes) :
    runItems item first input =
      match nextItem first input with
      | .error failure => .error failure
      | .ok (.done rest) => .ok ([], rest)
      | .ok (.item text) =>
        match item.run text with
        | .error failure => .error failure
        | .ok (value, rest) =>
          match runItems item false rest with
          | .error failure => .error failure
          | .ok (values, rest) => .ok (value :: values, rest) := by
  fun_cases runItems item first input <;> simp_all

/-- By induction on the items: each is taken for its values, and so is the list of them. -/
theorem runItems_listed {ν : Type} {item : Reader α} {write : ν → Bytes} {values : ν → α → Prop}
    (parts : List ν) (hstarts : ∀ x ∈ parts, StartsValue (write x))
    (hitem : ∀ x ∈ parts, item.Takes (write x) (values x)) (first : Bool) (rest : Bytes)
    (read : List α) (rest' : Bytes) :
    runItems item first (listed first (parts.map write) ++ ascii ']' :: rest) = .ok (read, rest') ↔
      rest' = rest ∧ List.Forall₂ values parts read := by
  induction parts generalizing first read rest' with
  | nil =>
    rw [List.map_nil, listed, List.nil_append, runItems_eq, nextItem_close]
    constructor
    · intro h
      cases h
      exact ⟨rfl, .nil⟩
    · rintro ⟨rfl, ⟨⟩⟩
      rfl
  | cons x parts ih =>
    have ih := ih (fun y hy => hstarts y (List.mem_cons_of_mem _ hy))
      (fun y hy => hitem y (List.mem_cons_of_mem _ hy)) false
    have htake := hitem x List.mem_cons_self _
      (endsNumber_listed (parts.map write) (ascii ']') (by decide) rest)
    rw [List.map_cons, listed, List.append_assoc, runItems_eq,
      nextItem_item first (hstarts x List.mem_cons_self)]
    dsimp only
    constructor
    · intro h
      split at h
      next => cases h
      next hrun =>
        obtain ⟨rfl, hvalue⟩ := (htake _ _).1 hrun
        split at h
        next => cases h
        next hmore =>
          cases h
          obtain ⟨rfl, hothers⟩ := (ih _ _).1 hmore
          exact ⟨rfl, .cons hvalue hothers⟩
    · rintro ⟨rfl, hread⟩
      cases hread with
      | cons hvalue hothers =>
      rw [(htake _ _).2 ⟨rfl, hvalue⟩]
      dsimp only
      rw [(ih _ _).2 ⟨rfl, hothers⟩]

theorem items_takes {ν : Type} {item : Reader α} {write : ν → Bytes} {values : ν → α → Prop}
    (parts : List ν) (hstarts : ∀ x ∈ parts, StartsValue (write x))
    (hitem : ∀ x ∈ parts, item.Takes (write x) (values x)) :
    (items item).Takes (listed true (parts.map write) ++ [ascii ']'])
      (List.Forall₂ values parts) := by
  intro rest _ read rest'
  rw [List.append_assoc]
  exact runItems_listed parts hstarts hitem true rest read rest'

theorem arrayEnd_takes : arrayEnd.Takes [ascii ']'] fun _ => True := by
  intro rest _ _ rest'
  show (closeList (ascii ']' :: rest)).map _ = _ ↔ _
  rw [closeList, skipBlanks_cons (by decide)]
  constructor
  · intro h
    cases h
    exact ⟨rfl, trivial⟩
  · intro h
    rw [h.1]
    rfl

/-- An item and then the others, where something that ends a number stands between them. -/
theorem itemThen_takes {item : Reader α} {others : Reader β} {part more : Bytes}
    {values : α → Prop} {values' : β → Prop} (first : Bool) (hstarts : StartsValue part)
    (hitem : item.Takes part values) (hends : ∀ rest, EndsNumber (more ++ rest))
    (hothers : others.Takes more values') :
    (itemThen first none item others).Takes ((if first then part else ascii ',' :: part) ++ more)
      fun pair => values pair.1 ∧ values' pair.2 := by
  intro rest hrest pair rest'
  have hothers := hothers rest hrest
  have hitem := hitem (more ++ rest) (hends rest)
  have hnext := nextItem_item first hstarts (more ++ rest)
  rw [← List.append_assoc] at hnext
  obtain ⟨value, more'⟩ := pair
  rw [run_itemThen_eq_ok_iff]
  constructor
  · rintro ⟨text, left, htext, hrun, hmore⟩
    cases hnext.symm.trans htext
    obtain ⟨rfl, hvalue⟩ := (hitem _ _).1 hrun
    obtain ⟨rfl, hvalues⟩ := (hothers _ _).1 hmore
    exact ⟨rfl, hvalue, hvalues⟩
  · rintro ⟨rfl, hvalue, hvalues⟩
    exact ⟨_, _, hnext, (hitem _ _).2 ⟨rfl, hvalue⟩, (hothers _ _).2 ⟨rfl, hvalues⟩⟩

/-! ### By the first byte -/

theorem bool_takes (value : Bool) :
    bool.Takes (Bytes.ofText (match value with | true => "true" | false => "false"))
      (· = value) := by
  cases value with
  | true =>
    show bool.Takes (ascii 't' :: Bytes.ofText "rue") _
    refine Takes.byFirst (by decide) ?_
    rw [if_pos rfl]
    exact word_takes "rue" true
  | false =>
    show bool.Takes (ascii 'f' :: Bytes.ofText "alse") _
    refine Takes.byFirst (by decide) ?_
    rw [if_neg (by decide), if_pos rfl]
    exact word_takes "alse" false

theorem null_takes (value : α) : (null value).Takes (Bytes.ofText "null") (· = value) := by
  show (null value).Takes (ascii 'n' :: Bytes.ofText "ull") _
  refine Takes.byFirst (by decide) ?_
  rw [if_pos rfl]
  exact word_takes "ull" value

theorem numeric_takes {values : Number → Prop} (hb : startsNumber b = true)
    (h : number.Takes (b :: text) values) (value? : Number → Option α) :
    (numeric value?).Takes (b :: text) fun a => ∃ n, values n ∧ value? n = some a := by
  refine Takes.byFirst (isBlank_of_startsValue (startsValue_of_startsNumber hb)) ?_
  rw [if_pos hb]
  exact h.refine value?

theorem textual_takes (value? : String → Option α) (text : String) :
    (textual value?).Takes (writeText text) fun a => value? text = some a := by
  refine Takes.byFirst (by decide) ?_
  rw [if_pos rfl]
  exact ((quoted_takes text).refine value?).congr fun a => by simp

theorem variant_takes (value? : String → Option α) (text : String) (depth : Nat) :
    (variant value? depth).Takes (writeText text) fun a => value? text = some a := by
  refine Takes.byFirst (by decide) ?_
  rw [if_pos rfl]
  exact ((quoted_takes text).refine value?).congr fun a => by simp

/-- Where the item is written as `null`, nothing is read. -/
theorem option_takes_null (item : Reader α) :
    (option item).Takes (Bytes.ofText "null") (· = none) := by
  show (option item).Takes (ascii 'n' :: Bytes.ofText "ull") _
  refine Takes.byFirst (by decide) ?_
  rw [if_pos rfl]
  exact word_takes "ull" none

theorem option_takes {item : Reader α} (hb : startsValue b = true) (hnull : b ≠ ascii 'n')
    (h : item.Takes (b :: text) values) :
    (option item).Takes (b :: text) fun o => ∃ a, values a ∧ some a = o := by
  refine Takes.byFirst (isBlank_of_startsValue hb) ?_
  rw [if_neg hnull]
  exact h.map some

theorem array_takes {inner : Nat → Reader α} {values : Nat → α → Prop}
    (h : ∀ depth, (inner depth).Takes text (values depth)) (depth : Nat) :
    (array inner depth).Takes (ascii '[' :: text) fun a => ∃ d, depth = d + 1 ∧ values d a := by
  refine Takes.byFirst (by decide) ?_
  rw [if_pos rfl]
  exact enter_takes h depth

end Reader

end CommandWire.Json
