import CommandWire.Proofs.Frame.Outcome

/-!
# Frames written call by call

A frame writer can be called with anything, in any order, and go on after calls that were refused. A
refused call leaves no trace: the frame consists of the words of the other calls, one after the
other, and a reader that is called in the same order gets the same values and then finds the end
(`readAll_writeAll`).

Reading is compared with writing one call at a time (`run_read_word`), whatever follows in the
frame; the frame itself is known from the calls alone (`writeAll_eq`).
-/

namespace CommandWire

/-- A call of a frame writer. -/
inductive FramePiece where
  | byte (b : UInt8)
  | raw (bytes : Bytes)
  | name (field text : String)
  | block (index : Nat) (payload : Option Bytes) (limit : UInt8)

/-- What a frame reader answers. -/
inductive FrameValue where
  | byte (b : UInt8)
  | raw (bytes : Bytes)
  | name (text : String)
  | block (payload : Option Bytes)

namespace FramePiece

/-! ### Single calls -/

def write : FramePiece → FrameWrite Unit
  | byte b => FrameWrite.byte b
  | raw bytes => FrameWrite.raw bytes
  | name field text => FrameWrite.name field text
  | block index payload limit => FrameWrite.block index payload limit

/-- The call of a frame reader for a field that goes with the call of the writer. Raw bytes carry no
length, so the reader has to know it. -/
def read (field : String) : FramePiece → FrameRead FrameValue
  | byte _ => return .byte (← FrameRead.byte field)
  | raw bytes => return .raw (← FrameRead.take field bytes.length)
  | name .. => return .name (← FrameRead.name field)
  | block .. => return .block (← FrameRead.block field)

/-- What has been handed to the writer. -/
def value : FramePiece → FrameValue
  | byte b => .byte b
  | raw bytes => .raw bytes
  | name _ text => .name text
  | block _ payload _ => .block payload

/-- Why the call is refused. -/
def fault? : FramePiece → Option CodecError
  | byte _ | raw _ => none
  | name field text => nameFault? field text
  | block index payload limit => blockFault? index payload limit

/-- What the call appends if it is not refused. -/
def word : FramePiece → Bytes
  | byte b => [b]
  | raw bytes => bytes
  | name _ text => nameWord text
  | block _ payload _ => blockWord payload

theorem write_eq_attempt (piece : FramePiece) :
    piece.write = FrameWrite.attempt piece.fault? piece.word := by
  cases piece with
  | byte b => rfl
  | raw bytes => rfl
  | name field text => exact FrameWrite.name_eq_attempt field text
  | block index payload limit => exact FrameWrite.block_eq_attempt index payload limit

/-- A call is refused and leaves the bytes as they were, or it appends its word. -/
theorem run_write (piece : FramePiece) (written : Bytes) :
    piece.write.run written = match piece.fault? with
      | some failure => (.error failure, written)
      | none => (.ok (), written ++ piece.word) := by
  rw [write_eq_attempt]
  cases piece.fault? <;> rfl

/-- What an accepted call appends is read as what was handed over, and nothing else is read. -/
theorem run_read_word {piece : FramePiece} (h : piece.fault? = none) (field : String)
    (rest : Bytes) : (piece.read field).run (piece.word ++ rest) = (.ok piece.value, rest) := by
  have hwrite : piece.write.run [] = (.ok (), piece.word) := by
    rw [run_write, h]
    rfl
  cases piece with
  | byte b => rfl
  | raw bytes =>
    exact run_bind_eq_ok_iff.2
      ⟨bytes, rest, (FrameRead.take_reads field _ _ _ _).2 ⟨bytes, rfl, rfl, rfl⟩, rfl⟩
  | name _ text =>
    obtain ⟨_, rfl, hname⟩ := (FrameWrite.name_writes _ text _ _ _).1 hwrite
    exact run_bind_eq_ok_iff.2
      ⟨text, rest, (FrameRead.name_reads field _ _ _).2 ⟨_, rfl, hname⟩, rfl⟩
  | block _ payload _ =>
    obtain ⟨_, rfl, hblock, _⟩ := (FrameWrite.block_writes _ payload _ _ _ _).1 hwrite
    exact run_bind_eq_ok_iff.2
      ⟨payload, rest, (FrameRead.block_reads field _ _ _).2 ⟨_, rfl, hblock⟩, rfl⟩

/-! ### Calls in sequence -/

/-- Makes one call after the other, going on after those that are refused. The result are the calls
that were not refused, and the bytes in the end. -/
def writeAll : List FramePiece → Bytes → List FramePiece × Bytes
  | [], written => ([], written)
  | piece :: others, written =>
    match piece.write.run written with
    | (.error _, written) => writeAll others written
    | (.ok (), written) => (writeAll others written).map (piece :: ·) id

/-- Reads one field after the other. The reader may name them as it likes. -/
def readAll (field : Nat → String) : (position : Nat) → List FramePiece →
    FrameRead (List FrameValue)
  | _, [] => return []
  | position, piece :: others => do
    let value ← piece.read (field position)
    return value :: (← readAll field (position + 1) others)

/-- By induction on the calls: each leaves the bytes to the next one with its word or as they
were. -/
theorem writeAll_eq (pieces : List FramePiece) (written : Bytes) :
    writeAll pieces written =
      (pieces.filter (·.fault?.isNone),
        written ++ (pieces.filter (·.fault?.isNone)).flatMap word) := by
  induction pieces generalizing written with
  | nil => rw [writeAll, List.filter_nil, List.flatMap_nil, List.append_nil]
  | cons piece others ih =>
    rw [writeAll, run_write]
    cases hfault : piece.fault? with
    | some failure =>
      rw [List.filter_cons_of_neg (by simp [hfault])]
      exact ih written
    | none =>
      rw [List.filter_cons_of_pos (by simp [hfault]), List.flatMap_cons, ← List.append_assoc]
      exact congrArg (Prod.map (piece :: ·) id) (ih (written ++ piece.word))

/-- By induction on the calls: the reader is at the beginning of the next word. -/
theorem run_readAll_words {pieces : List FramePiece} (h : ∀ piece ∈ pieces, piece.fault? = none)
    (field : Nat → String) (position : Nat) (rest : Bytes) :
    (readAll field position pieces).run (pieces.flatMap word ++ rest) =
      (.ok (pieces.map value), rest) := by
  induction pieces generalizing position with
  | nil => rfl
  | cons piece others ih =>
    obtain ⟨hpiece, hothers⟩ := List.forall_mem_cons.1 h
    rw [List.flatMap_cons, List.append_assoc]
    exact run_bind_eq_ok_iff.2 ⟨piece.value, _, run_read_word hpiece _ _,
      run_bind_eq_ok_iff.2 ⟨_, rest, ih hothers (position + 1), rfl⟩⟩

/-- **Reading undoes writing, and what is refused leaves no trace.** A call that fails leaves the
bytes as they were. After any calls, the reader that makes the calls for those that succeeded gets
what was handed to the writer, and then nothing is left of the frame. -/
theorem readAll_writeAll (pieces : List FramePiece) (field : Nat → String) :
    (∀ (piece : FramePiece) written failure, (piece.write.run written).1 = .error failure →
      (piece.write.run written).2 = written) ∧
    let (accepted, frame) := writeAll pieces []
    accepted = pieces.filter (·.fault?.isNone) ∧ frame = accepted.flatMap word ∧
    ∃ rest, (readAll field 0 accepted).run frame = (.ok (accepted.map value), rest) ∧
      FrameRead.done rest = .ok () := by
  constructor
  · intro piece written failure h
    rw [run_write] at h ⊢
    cases hfault : piece.fault? with
    | some _ => rfl
    | none =>
      rw [hfault] at h
      cases h
  · have haccepted : ∀ piece ∈ pieces.filter (·.fault?.isNone), piece.fault? = none := by
      intro piece hpiece
      exact Option.isNone_iff_eq_none.1 (List.mem_filter.1 hpiece).2
    rw [writeAll_eq]
    dsimp only
    rw [List.nil_append]
    refine ⟨rfl, rfl, [], ?_, rfl⟩
    have h := run_readAll_words haccepted field 0 []
    rwa [List.append_nil] at h

end FramePiece

end CommandWire
