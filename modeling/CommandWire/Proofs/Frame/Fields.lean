import CommandWire.Frame.Read
import CommandWire.Frame.Write
import CommandWire.Proofs.Bytes.Ascii

/-!
# The language of the fields of a frame

What may stand in a frame is said by *languages*: relations between words of bytes and what the
words mean. A reading operation is described by the language whose words it takes off the front
(`Reads`), a writing operation by the language whose words it appends (`Writes`). Both notions are
exact and compose (`Reads.bind`, `Writes.bind`), so a frame is described field by field.

Names and blocks have one language each, and it is the same for reading and for writing:

    name_reads  : (FrameRead.name field).Reads IsName
    name_writes : (FrameWrite.name field name).Writes fun word _ => IsName word name

That is why what has been written can be read again.
-/

namespace CommandWire

/-! ### Two operations in sequence -/

section sequence

variable {α β : Type}

theorem run_bind (r : ExceptT CodecError (StateM Bytes) α)
    (f : α → ExceptT CodecError (StateM Bytes) β) (s : Bytes) :
    (r >>= f).run s = match r.run s with
      | (.ok a, u) => (f a).run u
      | (.error failure, u) => (.error failure, u) := by
  show ExceptT.bindCont f (r s).1 (r s).2 = _
  have h : r.run s = r s := rfl
  rw [h]
  cases hr : r s with
  | mk result u => cases result <;> rfl

/-- A sequence succeeds if and only if both of its parts do, one after the other. -/
theorem run_bind_eq_ok_iff {r : ExceptT CodecError (StateM Bytes) α}
    {f : α → ExceptT CodecError (StateM Bytes) β} {s t : Bytes} {b : β} :
    (r >>= f).run s = (.ok b, t) ↔ ∃ a u, r.run s = (.ok a, u) ∧ (f a).run u = (.ok b, t) := by
  rw [run_bind]
  constructor
  · intro h
    split at h
    next a u hr => exact ⟨a, u, hr, h⟩
    next => cases h
  · intro h
    obtain ⟨a, u, hr, hf⟩ := h
    rw [hr]
    exact hf

end sequence

/-! ### Languages -/

/-- The language of names: a length byte, then as many ASCII bytes. -/
inductive IsName : Bytes → String → Prop
  | mk {letters : Bytes} : letters.isAscii → letters.length < 256 →
      IsName (UInt8.ofNat letters.length :: letters) letters.asciiText

/-- The language of blocks: a zero byte for nothing, or a length byte and as many bytes. -/
inductive IsBlock : Bytes → Option Bytes → Prop
  | missing : IsBlock [0] none
  | present {payload : Bytes} : payload ≠ [] → payload.length < 256 →
      IsBlock (UInt8.ofNat payload.length :: payload) (some payload)

/-- One name after the other. -/
inductive AreNames : Bytes → List String → Prop
  | nil : AreNames [] []
  | cons {first rest : Bytes} {name : String} {names : List String} :
      IsName first name → AreNames rest names → AreNames (first ++ rest) (name :: names)

theorem isName_iff {word : Bytes} {text : String} :
    IsName word text ↔ (Bytes.ofText text).isAscii ∧ (Bytes.ofText text).length < 256 ∧
      word = UInt8.ofNat (Bytes.ofText text).length :: Bytes.ofText text := by
  constructor
  · intro h
    obtain ⟨ascii, short⟩ := h
    rw [Bytes.ofText_asciiText ascii]
    exact ⟨ascii, short, rfl⟩
  · intro h
    obtain ⟨ascii, short, rfl⟩ := h
    have h := IsName.mk ascii short
    rwa [Bytes.asciiText_ofText ascii] at h

/-- A length byte says the length of what it was made for. -/
theorem toNat_ofNat_length {bytes : Bytes} (h : bytes.length < 256) :
    (UInt8.ofNat bytes.length).toNat = bytes.length :=
  UInt8.toNat_ofNat_of_lt' h

/-- Only nothing has the length byte zero. -/
theorem ofNat_length_ne_zero {bytes : Bytes} (h : bytes ≠ []) (hl : bytes.length < 256) :
    UInt8.ofNat bytes.length ≠ 0 := by
  intro h0
  have hn := toNat_ofNat_length hl
  rw [h0] at hn
  exact h (List.eq_nil_of_length_eq_zero hn.symm)

/-! ### Reading -/

namespace FrameRead

variable {α β : Type}

/-- The operation takes a word of the language off the front of what is unread, whatever comes
after it, and it succeeds in no other case. -/
def Reads (r : FrameRead α) (words : Bytes → α → Prop) : Prop :=
  ∀ unread a rest, r.run unread = (.ok a, rest) ↔ ∃ word, unread = word ++ rest ∧ words word a

theorem Reads.pure (a : α) : Reads (Pure.pure a) fun word b => word = [] ∧ b = a := by
  intro unread b rest
  constructor
  · intro h
    cases h
    exact ⟨[], rfl, rfl, rfl⟩
  · intro h
    obtain ⟨_, rfl, rfl, rfl⟩ := h
    rfl

/-- Two readings, one after the other, take the words of the one followed by those of the other. -/
theorem Reads.bind {r : FrameRead α} {f : α → FrameRead β} {first : Bytes → α → Prop}
    {second : α → Bytes → β → Prop} (hr : r.Reads first) (hf : ∀ a, (f a).Reads (second a)) :
    (r >>= f).Reads fun word b => ∃ a u v, word = u ++ v ∧ first u a ∧ second a v b := by
  intro unread b rest
  rw [run_bind_eq_ok_iff]
  constructor
  · intro h
    obtain ⟨a, middle, ha, hb⟩ := h
    obtain ⟨u, rfl, hu⟩ := (hr _ _ _).1 ha
    obtain ⟨v, rfl, hv⟩ := (hf a _ _ _).1 hb
    exact ⟨u ++ v, (List.append_assoc ..).symm, a, u, v, rfl, hu, hv⟩
  · intro h
    obtain ⟨_, rfl, a, u, v, rfl, hu, hv⟩ := h
    exact ⟨a, v ++ rest, (hr _ _ _).2 ⟨u, List.append_assoc .., hu⟩, (hf a _ _ _).2 ⟨v, rfl, hv⟩⟩

/-- The same words, said in another way. -/
theorem Reads.congr {r : FrameRead α} {words words' : Bytes → α → Prop} (hr : r.Reads words)
    (h : ∀ word a, words word a ↔ words' word a) : r.Reads words' := by
  intro unread a rest
  rw [hr]
  simp only [h]

/-- An operation that only looks something up takes nothing. (What it does is given by equations,
because a `match` written elsewhere is not this `match`.) -/
theorem Reads.ofOption {r : FrameRead α} {failure : CodecError} (o : Option α)
    (hnone : o = none → r = throw failure) (hsome : ∀ a, o = some a → r = Pure.pure a) :
    r.Reads fun word a => word = [] ∧ o = some a := by
  intro unread a rest
  cases o with
  | none =>
    rw [hnone rfl]
    constructor
    · intro h
      cases h
    · intro h
      obtain ⟨_, _, _, ⟨⟩⟩ := h
  | some b =>
    rw [hsome b rfl, Reads.pure b unread a rest]
    simp only [Option.some.injEq, eq_comm]

theorem take_reads (field : String) (length : Nat) :
    (take field length).Reads fun word bytes => word = bytes ∧ bytes.length = length := by
  intro unread bytes rest
  show (if _ then _ else _) = _ ↔ _
  constructor
  · intro h
    split at h
    next => cases h
    next enough =>
      cases h
      refine ⟨_, (List.take_append_drop length unread).symm, rfl, ?_⟩
      rw [List.length_take]
      omega
  · intro h
    obtain ⟨_, rfl, rfl, rfl⟩ := h
    rw [if_neg (by simp), List.take_left, List.drop_left]

theorem byte_reads (field : String) : (byte field).Reads fun word b => word = [b] := by
  intro unread b rest
  cases unread with
  | nil =>
    constructor
    · intro h
      cases h
    · intro h
      obtain ⟨_, h, rfl⟩ := h
      cases h
  | cons first unread =>
    constructor
    · intro h
      cases h
      exact ⟨_, rfl, rfl⟩
    · intro h
      obtain ⟨_, h, rfl⟩ := h
      cases h
      rfl

theorem name_reads (field : String) : (name field).Reads IsName := by
  refine Reads.congr ((byte_reads field).bind fun length =>
    (take_reads field length.toNat).bind fun bytes =>
      .ofOption (if bytes.isAscii then bytes.toText? else none)
        (fun h => by rw [h]) fun _ h => by rw [h]) ?_
  intro word text
  constructor
  · intro h
    obtain ⟨length, _, _, rfl, rfl, _, letters, _, rfl, ⟨rfl, hl⟩, rfl, ht⟩ := h
    split at ht
    next ascii =>
      rw [Bytes.toText?_of_isAscii ascii] at ht
      cases ht
      -- The length has been read from one byte, so it is one that a byte can say.
      have short : letters.length < 256 := hl ▸ length.toNat_lt
      rw [← UInt8.ofNat_toNat (x := length), ← hl, List.append_nil]
      exact .mk ascii short
    next => cases ht
  · intro h
    obtain ⟨ascii, short⟩ := h
    refine ⟨_, [_], _, rfl, rfl, _, _, [], (List.append_nil _).symm, ⟨rfl, ?_⟩, rfl, ?_⟩
    · exact (toNat_ofNat_length short).symm
    · rw [if_pos ascii, Bytes.toText?_of_isAscii ascii]

theorem block_reads (field : String) : (block field).Reads IsBlock := by
  -- Only after the length byte is it clear whether anything more is read.
  have body : ∀ length : UInt8, Reads
      (if length = 0 then return none else return some (← take field length.toNat))
      fun word payload => if length = 0 then word = [] ∧ payload = none
        else ∃ bytes, payload = some bytes ∧ word = bytes ∧ bytes.length = length.toNat := by
    intro length
    split
    next => exact .pure none
    next =>
      refine ((take_reads field length.toNat).bind fun bytes => .pure (some bytes)).congr ?_
      intro word payload
      constructor
      · intro h
        obtain ⟨bytes, _, _, rfl, ⟨rfl, hl⟩, rfl, rfl⟩ := h
        exact ⟨_, rfl, List.append_nil _, hl⟩
      · intro h
        obtain ⟨bytes, rfl, rfl, hl⟩ := h
        exact ⟨_, _, [], (List.append_nil _).symm, ⟨rfl, hl⟩, rfl, rfl⟩
  refine ((byte_reads field).bind body).congr ?_
  intro word payload
  constructor
  · intro h
    obtain ⟨length, _, v, rfl, rfl, h⟩ := h
    split at h
    next zero =>
      obtain ⟨rfl, rfl⟩ := h
      subst zero
      exact .missing
    next nonzero =>
      obtain ⟨bytes, rfl, rfl, hl⟩ := h
      have short : v.length < 256 := hl ▸ length.toNat_lt
      rw [← UInt8.ofNat_toNat (x := length), ← hl]
      refine .present ?_ short
      intro h
      subst h
      exact nonzero (UInt8.toNat_inj.1 hl.symm)
  · intro h
    rcases h with _ | ⟨some, short⟩
    · exact ⟨0, [0], [], rfl, rfl, by simp⟩
    · refine ⟨_, [_], _, rfl, rfl, ?_⟩
      rw [if_neg (ofNat_length_ne_zero some short)]
      exact ⟨_, rfl, rfl, (toNat_ofNat_length short).symm⟩

end FrameRead

/-! ### Writing -/

namespace FrameWrite

variable {α β : Type}

/-- The operation appends a word of the language to what is written, whatever that is, and it
succeeds in no other case. -/
def Writes (w : FrameWrite α) (words : Bytes → α → Prop) : Prop :=
  ∀ written a out, w.run written = (.ok a, out) ↔ ∃ word, out = written ++ word ∧ words word a

/-- Two writings, one after the other, append the words of the one followed by those of the
other. -/
theorem Writes.bind {w : FrameWrite α} {f : α → FrameWrite β} {first : Bytes → α → Prop}
    {second : α → Bytes → β → Prop} (hw : w.Writes first) (hf : ∀ a, (f a).Writes (second a)) :
    (w >>= f).Writes fun word b => ∃ a u v, word = u ++ v ∧ first u a ∧ second a v b := by
  intro written b out
  rw [run_bind_eq_ok_iff]
  constructor
  · intro h
    obtain ⟨a, middle, ha, hb⟩ := h
    obtain ⟨u, rfl, hu⟩ := (hw _ _ _).1 ha
    obtain ⟨v, rfl, hv⟩ := (hf a _ _ _).1 hb
    exact ⟨u ++ v, List.append_assoc .., a, u, v, rfl, hu, hv⟩
  · intro h
    obtain ⟨_, rfl, a, u, v, rfl, hu, hv⟩ := h
    exact ⟨a, written ++ u, (hw _ _ _).2 ⟨u, rfl, hu⟩,
      (hf a _ _ _).2 ⟨v, (List.append_assoc ..).symm, hv⟩⟩

theorem Writes.congr {w : FrameWrite α} {words words' : Bytes → α → Prop} (hw : w.Writes words)
    (h : ∀ word a, words word a ↔ words' word a) : w.Writes words' := by
  intro written a out
  rw [hw]
  simp only [h]

theorem Writes.pure (a : α) : Writes (Pure.pure a) fun word b => word = [] ∧ b = a := by
  intro written b out
  constructor
  · intro h
    cases h
    exact ⟨[], (List.append_nil _).symm, rfl, rfl⟩
  · intro h
    obtain ⟨_, rfl, rfl, rfl⟩ := h
    rw [List.append_nil]
    rfl

/-- What is refused is not written. -/
theorem Writes.throw (failure : CodecError) :
    Writes (α := α) (MonadExcept.throw failure) fun _ _ => False := by
  intro written a out
  constructor
  · intro h
    cases h
  · intro h
    obtain ⟨_, _, ⟨⟩⟩ := h

theorem raw_writes (bytes : Bytes) : (raw bytes).Writes fun word _ => word = bytes := by
  intro written a out
  constructor
  · intro h
    cases h
    exact ⟨bytes, rfl, rfl⟩
  · intro h
    obtain ⟨_, rfl, rfl⟩ := h
    rfl

theorem byte_writes (b : UInt8) : (byte b).Writes fun word _ => word = [b] := raw_writes [b]

theorem name_writes (field text : String) :
    (name field text).Writes fun word _ => IsName word text := by
  show (if _ then throw _ else if _ then throw _ else measured _ : FrameWrite Unit).Writes _
  by_cases ascii : (Bytes.ofText text).isAscii
  · rw [if_neg (by simp [ascii])]
    by_cases long : 255 < (Bytes.ofText text).length
    · rw [if_pos long]
      refine (Writes.throw _).congr fun word _ => ⟨False.elim, fun h => ?_⟩
      have := (isName_iff.1 h).2.1
      omega
    · rw [if_neg long]
      refine (raw_writes _).congr fun word _ => ?_
      rw [isName_iff]
      exact ⟨fun h => ⟨ascii, by omega, h⟩, fun h => h.2.2⟩
  · rw [if_pos (by simp [ascii])]
    exact (Writes.throw _).congr fun word _ => ⟨False.elim, fun h => ascii (isName_iff.1 h).1⟩

theorem block_writes (index : Nat) (payload : Option Bytes) (limit : UInt8) :
    (block index payload limit).Writes fun word _ =>
      IsBlock word payload ∧ ∀ bytes ∈ payload, bytes.length ≤ limit.toNat := by
  cases payload with
  | none =>
    refine (byte_writes 0).congr fun word _ => ⟨?_, ?_⟩
    · intro h
      subst h
      exact ⟨.missing, by simp⟩
    · intro h
      obtain ⟨⟨⟩, _⟩ := h
      rfl
  | some bytes =>
    show (if _ then throw _ else if _ then throw _ else measured bytes : FrameWrite Unit).Writes _
    by_cases empty : bytes = []
    · rw [if_pos (List.isEmpty_iff.2 empty)]
      refine (Writes.throw _).congr fun word _ => ⟨False.elim, ?_⟩
      intro h
      obtain ⟨⟨⟩ | ⟨some, _⟩, _⟩ := h
      exact some empty
    · rw [if_neg (by simpa using empty)]
      by_cases long : limit.toNat < bytes.length
      · rw [if_pos long]
        refine (Writes.throw _).congr fun word _ => ⟨False.elim, fun h => ?_⟩
        have := h.2 bytes rfl
        omega
      · rw [if_neg long]
        have := limit.toNat_lt
        refine (raw_writes _).congr fun word _ => ⟨?_, ?_⟩
        · intro h
          subst h
          exact ⟨.present empty (by omega), fun _ h => by cases h; omega⟩
        · intro h
          obtain ⟨⟨⟩ | _, _⟩ := h
          rfl

end FrameWrite

end CommandWire
