import CommandWire.Proofs.Frame.Fields

/-!
# What comes of writing

Whether a name or a block is refused, and why, can be said from what is to be written
(`nameFault?`, `blockFault?`), and so can the bytes that it is written as (`nameWord`, `blockWord`).
Each of the two operations is a decision between just these (`name_eq_attempt`,
`block_eq_attempt`): it throws the fault, or else it appends the word, and so it leaves nothing
behind when it is refused.

Of operations in sequence the first fault is thrown, or the words are appended one after the other
(`ComesTo.bind`).
-/

namespace CommandWire

/-! ### Faults and words -/

/-- Why a text cannot stand in a frame as a name: a character that is not ASCII, or else more bytes
than the length byte can count. -/
def nameFault? (field text : String) : Option CodecError :=
  if text.toList.any (128 ≤ ·.toNat) then some (.nonAscii field)
  else if 255 < text.utf8ByteSize then some (.nameTooLong field text.utf8ByteSize)
  else none

/-- A text with its length in front. -/
def nameWord (text : String) : Bytes := .ofNat text.utf8ByteSize :: Bytes.ofText text

/-- Why bytes cannot be the block of an argument: there are none, or else more than the limit. A
missing argument has no fault. -/
def blockFault? (index : Nat) (payload : Option Bytes) (limit : UInt8) : Option CodecError :=
  match payload with
  | none => none
  | some bytes =>
    if bytes = [] then some (.emptyArgument index)
    else if limit.toNat < bytes.length then
      some (.argumentTooLarge index bytes.length limit.toNat)
    else none

/-- The bytes of an argument with their length in front, or a zero byte if it is missing. -/
def blockWord : Option Bytes → Bytes
  | none => [0]
  | some bytes => .ofNat bytes.length :: bytes

namespace FrameWrite

/-! ### Single operations -/

/-- To refuse with the fault, or to append the word if there is none. -/
def attempt (fault? : Option CodecError) (word : Bytes) : FrameWrite Unit :=
  match fault? with
  | some failure => throw failure
  | none => raw word

theorem name_eq_attempt (field text : String) :
    name field text = attempt (nameFault? field text) (nameWord text) := by
  have hascii : (!(Bytes.ofText text).isAscii) = text.toList.any (128 ≤ ·.toNat) := by
    simp only [Bytes.isAscii_ofText, List.not_all_eq_any_not, decide_not, ← Nat.not_lt]
  rw [name, nameFault?, Bytes.length_ofText, hascii]
  split
  next => rfl
  next => split <;> rfl

theorem block_eq_attempt (index : Nat) (payload : Option Bytes) (limit : UInt8) :
    block index payload limit = attempt (blockFault? index payload limit) (blockWord payload) := by
  cases payload with
  | none => rfl
  | some bytes =>
    rw [block, blockFault?]
    simp only [List.isEmpty_iff]
    split
    next => rfl
    next => split <;> rfl

/-! ### Operations in sequence -/

/-- The operation throws the fault, or appends the word if there is none. Nothing is said about what
it has written up to a fault. -/
structure ComesTo (r : FrameWrite Unit) (fault? : Option CodecError) (word : Bytes) : Prop where
  error : ∀ {failure}, fault? = some failure → ∀ written, ∃ out,
    r.run written = (.error failure, out)
  ok : fault? = none → ∀ written, r.run written = (.ok (), written ++ word)

theorem attempt_comesTo (fault? : Option CodecError) (word : Bytes) :
    (attempt fault? word).ComesTo fault? word where
  error h written := by
    subst h
    exact ⟨written, rfl⟩
  ok h _ := by
    subst h
    rfl

theorem name_comesTo (field text : String) :
    (name field text).ComesTo (nameFault? field text) (nameWord text) := by
  rw [name_eq_attempt]
  exact attempt_comesTo _ _

theorem raw_comesTo (bytes : Bytes) : (raw bytes).ComesTo none bytes := attempt_comesTo none bytes

theorem ComesTo.pure : ComesTo (Pure.pure ()) none [] where
  error := nofun
  ok _ written := by
    rw [List.append_nil]
    rfl

/-- A fault of the first operation comes before one of the second. -/
theorem ComesTo.bind {r : FrameWrite Unit} {f : Unit → FrameWrite Unit}
    {fault? fault'? : Option CodecError} {word word' : Bytes} (hr : r.ComesTo fault? word)
    (hf : (f ()).ComesTo fault'? word') :
    (r >>= f).ComesTo (fault?.or fault'?) (word ++ word') where
  error := by
    intro failure h written
    cases fault? with
    | some first =>
      obtain rfl : first = failure := Option.some.inj h
      obtain ⟨out, hout⟩ := hr.error rfl written
      exact ⟨out, by rw [run_bind, hout]⟩
    | none =>
      obtain ⟨out, hout⟩ := hf.error h (written ++ word)
      exact ⟨out, by rw [run_bind, hr.ok rfl]; exact hout⟩
  ok := by
    intro h written
    obtain ⟨hfirst, hsecond⟩ := Option.or_eq_none_iff.1 h
    rw [run_bind, hr.ok hfirst]
    dsimp only
    rw [hf.ok hsecond, List.append_assoc]

end FrameWrite

end CommandWire
