import CommandWire.Frame.Cursor
import CommandWire.Proofs.Frame.Script

/-!
# Cursors stay in their frame

Reading with a cursor is reading the bytes from its position on (`Follows`): same answers, and the
cursor then stands at what is left unread. In particular no operation makes the machine stop, as
long as the cursor stands in its frame (`Inside`), and it still does afterwards.

A frame can be read with any calls in any order, by several cursors side by side, and the reading
goes on after calls that failed. Every call ends in one of the ways that are listed in
`FrameCall.Ends`, which say how far the cursor moves (`FrameCursor.IsIn.run_withCursor`).
-/

namespace CommandWire

/-! ### Words of a machine -/

namespace Crash

theorem sub_of_le {a b : UInt64} (h : b ≤ a) : sub a b = .ok (a - b) :=
  if_neg (UInt64.not_lt.2 h)

theorem add_of_lt {a b : UInt64} (h : a.toNat + b.toNat < UInt64.size) :
    add a b = .ok (a + b) ∧ (a + b).toNat = a.toNat + b.toNat := by
  have hsum : (a + b).toNat = a.toNat + b.toNat := by
    rw [UInt64.toNat_add]
    exact Nat.mod_eq_of_lt h
  refine ⟨if_neg (UInt64.not_lt.2 (UInt64.le_iff_toNat_le.2 ?_)), hsum⟩
  rw [hsum]
  exact Nat.le_add_right ..

end Crash

namespace FrameBuffer

theorem toNat_length (buffer : FrameBuffer) : buffer.length.toNat = buffer.bytes.length :=
  UInt64.toNat_ofNat_of_lt' buffer.countable

end FrameBuffer

/-! ### Cursors and unread bytes -/

namespace FrameCursor

/-- The cursor has not passed the end of its frame. -/
def Inside (cursor : FrameCursor) : Prop := cursor.position.toNat ≤ cursor.buffer.bytes.length

theorem inside_start (buffer : FrameBuffer) : (start buffer).Inside := Nat.zero_le _

theorem length_unread (cursor : FrameCursor) :
    cursor.unread.length = cursor.buffer.bytes.length - cursor.position.toNat :=
  List.length_drop ..

theorem remaining_of_inside {cursor : FrameCursor} (h : cursor.Inside) :
    ∃ remaining, cursor.remaining = .ok remaining ∧ remaining.toNat = cursor.unread.length := by
  have hle : cursor.position ≤ cursor.buffer.length := by
    rw [UInt64.le_iff_toNat_le, FrameBuffer.toNat_length]
    exact h
  refine ⟨_, Crash.sub_of_le hle, ?_⟩
  rw [UInt64.toNat_sub_of_le _ _ hle, FrameBuffer.toNat_length, length_unread]

/-- Where enough is left, the sum of position and length is at most the length of the frame, and so
it is a word. -/
theorem advance_of_le {cursor : FrameCursor} {length : UInt64} (h : cursor.Inside)
    (enough : length.toNat ≤ cursor.unread.length) : ∃ stop,
      Crash.add cursor.position length = .ok stop ∧
      cursor.buffer.slice cursor.position stop = .ok (cursor.unread.take length.toNat) ∧
      Inside { cursor with position := stop } ∧
      unread { cursor with position := stop } = cursor.unread.drop length.toNat := by
  rw [Inside] at h
  rw [length_unread] at enough
  have hinside : cursor.position.toNat + length.toNat ≤ cursor.buffer.bytes.length := by omega
  obtain ⟨hadd, hstop⟩ := Crash.add_of_lt (Nat.lt_of_le_of_lt hinside cursor.buffer.countable)
  refine ⟨_, hadd, ?_, ?_, ?_⟩
  · rw [FrameBuffer.slice, if_neg, hstop, unread, List.take_drop]
    simp only [UInt64.lt_iff_toNat_lt, hstop, FrameBuffer.toNat_length]
    omega
  · rw [Inside, hstop]
    exact hinside
  · rw [unread, unread, hstop, List.drop_drop]

end FrameCursor

namespace CursorRead

variable {α β : Type}

/-- The operation with a cursor does what the other one does with the bytes that the cursor has not
read, and the machine does not stop. -/
def Follows (r : CursorRead α) (s : FrameRead α) : Prop :=
  ∀ cursor : FrameCursor, cursor.Inside → ∃ after : FrameCursor,
    r.run cursor = .ok ((s.run cursor.unread).1, after) ∧ after.buffer = cursor.buffer ∧
    after.Inside ∧ after.unread = (s.run cursor.unread).2

theorem Follows.pure (a : α) : Follows (Pure.pure a) (Pure.pure a) :=
  fun cursor inside => ⟨cursor, rfl, rfl, inside, rfl⟩

theorem Follows.throw (failure : CodecError) :
    Follows (α := α) (MonadExcept.throw failure) (MonadExcept.throw failure) :=
  fun cursor inside => ⟨cursor, rfl, rfl, inside, rfl⟩

theorem run_bind (r : CursorRead α) (f : α → CursorRead β) (cursor : FrameCursor) :
    (r >>= f).run cursor = match r.run cursor with
      | .ok (.ok a, after) => (f a).run after
      | .ok (.error failure, after) => .ok (.error failure, after)
      | .error crash => .error crash := by
  show Except.bind (r cursor) _ = _
  have h : r.run cursor = r cursor := rfl
  rw [h]
  match r cursor with
  | .ok (.ok _, _) => rfl
  | .ok (.error _, _) => rfl
  | .error _ => rfl

/-- After an answer both go on from the same unread bytes, and after a failure neither goes on. -/
theorem Follows.bind {r : CursorRead α} {s : FrameRead α} {f : α → CursorRead β}
    {g : α → FrameRead β} (hr : r.Follows s) (hf : ∀ a, (f a).Follows (g a)) :
    (r >>= f).Follows (s >>= g) := by
  intro cursor inside
  obtain ⟨middle, hrun, hbuffer, hinside, hunread⟩ := hr cursor inside
  rw [run_bind, hrun, CommandWire.run_bind]
  match hs : s.run cursor.unread with
  | (.error failure, unread) =>
    rw [hs] at hunread
    exact ⟨middle, rfl, hbuffer, hinside, hunread⟩
  | (.ok a, unread) =>
    rw [hs] at hunread
    obtain ⟨after, hrun', hbuffer', hinside', hunread'⟩ := hf a middle hinside
    rw [hunread] at hrun' hunread'
    exact ⟨after, hrun', hbuffer'.trans hbuffer, hinside', hunread'⟩

theorem take_follows (field : String) (length : UInt64) :
    (take field length).Follows (FrameRead.take field length.toNat) := by
  intro cursor inside
  obtain ⟨remaining, hremaining, hleft⟩ := FrameCursor.remaining_of_inside inside
  have hread : (FrameRead.take field length.toNat).run cursor.unread =
      if cursor.unread.length < length.toNat then
        (.error (.truncated field length.toNat cursor.unread.length), cursor.unread)
      else (.ok (cursor.unread.take length.toNat), cursor.unread.drop length.toNat) := rfl
  have hcursor : (take field length).run cursor = if remaining < length then
        .ok (.error (.truncated field length.toNat remaining.toNat), cursor)
      else do
        let stop ← Crash.add cursor.position length
        let bytes ← cursor.buffer.slice cursor.position stop
        return (.ok bytes, { cursor with position := stop }) := by
    show (take field length) cursor = _
    rw [take, hremaining]
    rfl
  rw [hread, hcursor]
  simp only [UInt64.lt_iff_toNat_lt, hleft]
  split
  next => exact ⟨cursor, rfl, rfl, inside, rfl⟩
  next enough =>
    obtain ⟨stop, hadd, hslice, hinside, hunread⟩ :=
      FrameCursor.advance_of_le inside (Nat.not_lt.1 enough)
    refine ⟨{ cursor with position := stop }, ?_, rfl, hinside, hunread⟩
    rw [hadd]
    show Except.bind (cursor.buffer.slice _ _) _ = _
    rw [hslice]
    rfl

/-- A byte is a slice of length one, and that slice is not empty. -/
theorem byte_follows (field : String) : (byte field).Follows (FrameRead.byte field) := by
  intro cursor inside
  obtain ⟨after, hrun, hafter⟩ := take_follows field 1 cursor inside
  rw [byte, run_bind, hrun]
  cases hunread : cursor.unread with
  | nil =>
    rw [hunread] at hafter
    exact ⟨after, rfl, hafter⟩
  | cons first unread =>
    rw [hunread] at hafter
    have htake : (FrameRead.take field (1 : UInt64).toNat).run (first :: unread) =
        (.ok [first], unread) :=
      (FrameRead.take_reads field _ _ _ _).2 ⟨[first], rfl, rfl, rfl⟩
    rw [htake] at hafter ⊢
    exact ⟨after, rfl, hafter⟩

theorem name_follows (field : String) : (name field).Follows (FrameRead.name field) := by
  refine (byte_follows field).bind fun length =>
    (take_follows field length.toUInt64).bind fun bytes => ?_
  generalize (if bytes.isAscii then bytes.toText? else none) = text?
  cases text? with
  | none => exact .throw _
  | some text => exact .pure text

theorem block_follows (field : String) : (block field).Follows (FrameRead.block field) := by
  refine (byte_follows field).bind fun length => ?_
  split
  next => exact .pure none
  next => exact (take_follows field length.toUInt64).bind fun bytes => .pure (some bytes)

theorem done_follows : done.Follows fun unread => (FrameRead.done unread, unread) := by
  intro cursor inside
  obtain ⟨remaining, hremaining, hleft⟩ := FrameCursor.remaining_of_inside inside
  have hcursor : done.run cursor = if remaining = 0 then .ok (.ok (), cursor)
      else .ok (.error (.trailingBytes remaining.toNat), cursor) := by
    show done cursor = _
    rw [done, hremaining]
    rfl
  have hzero : remaining = 0 ↔ cursor.unread = [] := by
    rw [← UInt64.toNat_inj, hleft]
    exact List.length_eq_zero_iff
  refine ⟨cursor, ?_, rfl, inside, rfl⟩
  show done.run cursor = .ok (FrameRead.done cursor.unread, cursor)
  rw [hcursor]
  by_cases hend : cursor.unread = []
  · rw [if_pos (hzero.2 hend), hend]
    rfl
  · rw [if_neg fun h => hend (hzero.1 h), FrameRead.done, if_neg (by simpa using hend), hleft]

end CursorRead

/-! ### Calls -/

theorem FrameRead.run_take_of_lt (field : String) {length : Nat} {unread : Bytes}
    (h : unread.length < length) : (FrameRead.take field length).run unread =
      (.error (.truncated field length unread.length), unread) :=
  if_pos h

theorem FrameRead.run_take_append (field : String) {length : Nat} {word : Bytes}
    (h : word.length = length) (rest : Bytes) :
    (FrameRead.take field length).run (word ++ rest) = (.ok word, rest) :=
  (FrameRead.take_reads field _ _ _ _).2 ⟨word, rfl, rfl, h⟩

theorem exists_front {unread : Bytes} {length : Nat} (h : length ≤ unread.length) :
    ∃ word rest, unread = word ++ rest ∧ word.length = length :=
  ⟨_, _, (List.take_append_drop length unread).symm, List.length_take_of_le h⟩

/-- A call of a frame reader. -/
inductive FrameCall where
  | take (field : String) (length : UInt64)
  | byte (field : String)
  | name (field : String)
  | block (field : String)
  | done

namespace FrameCall

/-- The call, made with a cursor. That the frame has been read to its end is an answer without a
value. -/
def withCursor : FrameCall → CursorRead (Option FrameValue)
  | take field length => return some (.raw (← CursorRead.take field length))
  | byte field => return some (.byte (← CursorRead.byte field))
  | name field => return some (.name (← CursorRead.name field))
  | block field => return some (.block (← CursorRead.block field))
  | done => do
    CursorRead.done
    return none

/-- The call, made with the unread bytes. -/
def withBytes : FrameCall → FrameRead (Option FrameValue)
  | take field length => return some (.raw (← FrameRead.take field length.toNat))
  | byte field => return some (.byte (← FrameRead.byte field))
  | name field => return some (.name (← FrameRead.name field))
  | block field => return some (.block (← FrameRead.block field))
  | done => do
    (fun unread => (FrameRead.done unread, unread) : FrameRead Unit)
    return none

theorem withCursor_follows (call : FrameCall) : call.withCursor.Follows call.withBytes := by
  cases call with
  | take field length => exact (CursorRead.take_follows field length).bind fun _ => .pure _
  | byte field => exact (CursorRead.byte_follows field).bind fun _ => .pure _
  | name field => exact (CursorRead.name_follows field).bind fun _ => .pure _
  | block field => exact (CursorRead.block_follows field).bind fun _ => .pure _
  | done => exact CursorRead.done_follows.bind fun _ => .pure _

/-- The ways in which a call can end: what is unread before it, its answer, and how many bytes it
uses up. -/
inductive Ends : FrameCall → Bytes → Except CodecError (Option FrameValue) → Nat → Prop
  | take {field : String} {length : UInt64} {word rest : Bytes} : word.length = length.toNat →
      Ends (.take field length) (word ++ rest) (.ok (some (.raw word))) length.toNat
  | takeShort {field : String} {length : UInt64} {unread : Bytes} :
      unread.length < length.toNat →
      Ends (.take field length) unread
        (.error (.truncated field length.toNat unread.length)) 0
  | byte {field : String} {b : UInt8} {rest : Bytes} :
      Ends (.byte field) (b :: rest) (.ok (some (.byte b))) 1
  | byteShort {field : String} : Ends (.byte field) [] (.error (.truncated field 1 0)) 0
  | name {field text : String} {word rest : Bytes} : IsName word text →
      Ends (.name field) (word ++ rest) (.ok (some (.name text))) word.length
  | nameUnmeasured {field : String} : Ends (.name field) [] (.error (.truncated field 1 0)) 0
  | nameShort {field : String} {length : UInt8} {rest : Bytes} : rest.length < length.toNat →
      Ends (.name field) (length :: rest)
        (.error (.truncated field length.toNat rest.length)) 1
  | nameNotAscii {field : String} {length : UInt8} {letters rest : Bytes} :
      letters.length = length.toNat → ¬ letters.isAscii →
      Ends (.name field) (length :: (letters ++ rest)) (.error (.nonAscii field))
        (1 + length.toNat)
  | block {field : String} {word rest : Bytes} {payload : Option Bytes} : IsBlock word payload →
      Ends (.block field) (word ++ rest) (.ok (some (.block payload))) word.length
  | blockUnmeasured {field : String} : Ends (.block field) [] (.error (.truncated field 1 0)) 0
  | blockShort {field : String} {length : UInt8} {rest : Bytes} : rest.length < length.toNat →
      Ends (.block field) (length :: rest)
        (.error (.truncated field length.toNat rest.length)) 1
  | done : Ends .done [] (.ok none) 0
  | doneEarly {unread : Bytes} : unread ≠ [] →
      Ends .done unread (.error (.trailingBytes unread.length)) 0

/-- What the call answers and leaves is one of the ways in which it can end. -/
def EndsOn (call : FrameCall) (unread : Bytes) : Prop := ∃ answer used,
  call.withBytes.run unread = (answer, unread.drop used) ∧ used ≤ unread.length ∧
  call.Ends unread answer used

theorem take_endsOn (field : String) (length : UInt64) (unread : Bytes) :
    (take field length).EndsOn unread := by
  by_cases short : unread.length < length.toNat
  · refine ⟨_, 0, ?_, Nat.zero_le _, .takeShort short⟩
    rw [withBytes, run_bind, FrameRead.run_take_of_lt field short]
    rfl
  · obtain ⟨word, rest, rfl, hword⟩ := exists_front (Nat.not_lt.1 short)
    refine ⟨_, length.toNat, ?_, Nat.not_lt.1 short, .take hword⟩
    rw [withBytes, run_bind, FrameRead.run_take_append field hword, ← hword, List.drop_left]
    rfl

theorem byte_endsOn (field : String) (unread : Bytes) : (byte field).EndsOn unread := by
  cases unread with
  | nil => exact ⟨_, 0, rfl, Nat.le_refl 0, .byteShort⟩
  | cons b rest => exact ⟨_, 1, rfl, Nat.le_add_left .., .byte⟩

/-- The length byte is gone in every case but the first. -/
theorem name_endsOn (field : String) (unread : Bytes) : (name field).EndsOn unread := by
  cases unread with
  | nil => exact ⟨_, 0, rfl, Nat.le_refl 0, .nameUnmeasured⟩
  | cons length rest =>
    have hbyte : (FrameRead.byte field).run (length :: rest) = (.ok length, rest) := rfl
    by_cases short : rest.length < length.toNat
    · refine ⟨_, 1, ?_, Nat.le_add_left .., .nameShort short⟩
      rw [withBytes, run_bind, FrameRead.name, run_bind, hbyte]
      dsimp only
      rw [run_bind, FrameRead.run_take_of_lt field short]
      rfl
    · obtain ⟨letters, rest, rfl, hletters⟩ := exists_front (Nat.not_lt.1 short)
      by_cases ascii : letters.isAscii
      · have hword : IsName (length :: letters) letters.asciiText := by
          have h := IsName.mk ascii (hletters ▸ length.toNat_lt)
          rwa [hletters, UInt8.ofNat_toNat] at h
        have hrun := (FrameRead.name_reads field _ _ rest).2 ⟨_, rfl, hword⟩
        refine ⟨_, (length :: letters).length, ?_, by simp, .name hword⟩
        rw [withBytes, run_bind, ← List.cons_append, hrun, List.drop_left]
        rfl
      · refine ⟨_, 1 + length.toNat, ?_, ?_, .nameNotAscii hletters ascii⟩
        · rw [withBytes, run_bind, FrameRead.name, run_bind, hbyte]
          dsimp only
          rw [run_bind, FrameRead.run_take_append field hletters]
          dsimp only
          rw [if_neg ascii, Nat.add_comm, List.drop_succ_cons, ← hletters, List.drop_left]
          rfl
        · rw [List.length_cons, List.length_append]
          omega

theorem block_endsOn (field : String) (unread : Bytes) : (block field).EndsOn unread := by
  cases unread with
  | nil => exact ⟨_, 0, rfl, Nat.le_refl 0, .blockUnmeasured⟩
  | cons length rest =>
    have hblock : (FrameRead.block field).run (length :: rest) = (
        if length = 0 then return none
        else return some (← FrameRead.take field length.toNat) : FrameRead _).run rest := rfl
    by_cases short : rest.length < length.toNat
    · have hlength : length ≠ 0 := by
        intro h
        subst h
        exact Nat.not_lt_zero _ short
      refine ⟨_, 1, ?_, Nat.le_add_left .., .blockShort short⟩
      rw [withBytes, run_bind, hblock, if_neg hlength, run_bind,
        FrameRead.run_take_of_lt field short]
      rfl
    · obtain ⟨payload, rest, rfl, hpayload⟩ := exists_front (Nat.not_lt.1 short)
      obtain ⟨payload?, hword⟩ : ∃ payload?, IsBlock (length :: payload) payload? := by
        by_cases empty : payload = []
        · subst empty
          obtain rfl : length = 0 := UInt8.toNat_inj.1 hpayload.symm
          exact ⟨none, .missing⟩
        · have h := IsBlock.present empty (hpayload ▸ length.toNat_lt)
          rw [hpayload, UInt8.ofNat_toNat] at h
          exact ⟨some payload, h⟩
      have hrun := (FrameRead.block_reads field _ _ rest).2 ⟨_, rfl, hword⟩
      refine ⟨_, (length :: payload).length, ?_, by simp, .block hword⟩
      rw [withBytes, run_bind, ← List.cons_append, hrun, List.drop_left]
      rfl

theorem done_endsOn (unread : Bytes) : done.EndsOn unread := by
  cases unread with
  | nil => exact ⟨_, 0, rfl, Nat.le_refl 0, .done⟩
  | cons b rest => exact ⟨_, 0, rfl, Nat.zero_le _, .doneEarly (List.cons_ne_nil b rest)⟩

theorem endsOn (call : FrameCall) (unread : Bytes) : call.EndsOn unread := by
  cases call with
  | take field length => exact take_endsOn field length unread
  | byte field => exact byte_endsOn field unread
  | name field => exact name_endsOn field unread
  | block field => exact block_endsOn field unread
  | done => exact done_endsOn unread

end FrameCall

/-! ### Calls in sequence -/

/-- A call that was made with a cursor, and what came of it. -/
structure CursorEvent where
  before : FrameCursor
  call : FrameCall
  answer : Except CodecError (Option FrameValue)
  after : FrameCursor

/-- What can be done with a row of cursors: to make a call with one of them, or to put a copy of one
of them at the end of the row. -/
inductive CursorStep where
  | make (index : Nat) (call : FrameCall)
  | clone (index : Nat)

namespace CursorStep

/-- The calls that are made in the step, and the row after it. There is none if there is no such
cursor. -/
def run : CursorStep → List FrameCursor → Except Crash (List CursorEvent × List FrameCursor)
  | clone index, cursors => return ([], cursors ++ cursors[index]?.toList)
  | make index call, cursors =>
    match cursors[index]? with
    | none => return ([], cursors)
    | some cursor => do
      let (answer, after) ← call.withCursor.run cursor
      return ([⟨cursor, call, answer, after⟩], cursors.set index after)

/-- Makes one step after the other, going on after calls that failed. -/
def runAll : List CursorStep → List FrameCursor →
    Except Crash (List CursorEvent × List FrameCursor)
  | [], cursors => return ([], cursors)
  | step :: others, cursors => do
    let (events, cursors) ← step.run cursors
    let (later, cursors) ← runAll others cursors
    return (events ++ later, cursors)

end CursorStep

namespace FrameCursor

/-- The cursor stands in this frame or at its end. -/
structure IsIn (cursor : FrameCursor) (buffer : FrameBuffer) : Prop where
  buffer_eq : cursor.buffer = buffer
  inside : cursor.Inside

end FrameCursor

namespace CursorEvent

/-- The call has ended in one of the ways in which it can end, has moved the cursor by the bytes that
it has used up, and has answered as a reader that is handed the unread bytes alone. -/
structure IsExact (event : CursorEvent) (buffer : FrameBuffer) : Prop where
  before : event.before.IsIn buffer
  after : event.after.IsIn buffer
  moves : ∃ used, event.after.position.toNat = event.before.position.toNat + used ∧
    event.call.Ends event.before.unread event.answer used
  reads : event.call.withBytes.run event.before.unread = (event.answer, event.after.unread)

end CursorEvent

/-- A call of a cursor in its frame. What is left unread fixes the position. -/
theorem FrameCursor.IsIn.run_withCursor {cursor : FrameCursor} {buffer : FrameBuffer}
    (h : cursor.IsIn buffer) (call : FrameCall) : ∃ answer after,
      call.withCursor.run cursor = .ok (answer, after) ∧
      CursorEvent.IsExact ⟨cursor, call, answer, after⟩ buffer := by
  obtain ⟨after, hrun, hbuffer, hinside, hunread⟩ := call.withCursor_follows cursor h.inside
  obtain ⟨answer, used, hends, hused, ends⟩ := call.endsOn cursor.unread
  rw [hends] at hrun hunread
  refine ⟨answer, after, hrun, h, ⟨hbuffer.trans h.buffer_eq, hinside⟩, ⟨used, ?_, ends⟩, ?_⟩
  · have hleft := congrArg List.length hunread
    have hbefore := h.inside
    rw [List.length_drop, length_unread, length_unread, hbuffer] at hleft
    rw [length_unread] at hused
    rw [Inside] at hbefore hinside
    rw [hbuffer] at hinside
    dsimp only
    omega
  · dsimp only
    rw [hends, hunread]

namespace CursorStep

theorem run_isExact (step : CursorStep) {cursors : List FrameCursor} {buffer : FrameBuffer}
    (h : ∀ cursor ∈ cursors, cursor.IsIn buffer) : ∃ events cursors',
      step.run cursors = .ok (events, cursors') ∧ (∀ cursor ∈ cursors', cursor.IsIn buffer) ∧
      ∀ event ∈ events, event.IsExact buffer := by
  cases step with
  | clone index =>
    refine ⟨[], _, rfl, ?_, by simp⟩
    intro cursor hcursor
    rcases List.mem_append.1 hcursor with hcursor | hcursor
    · exact h cursor hcursor
    · exact h cursor (List.mem_of_getElem? (Option.mem_toList.1 hcursor))
  | make index call =>
    rw [run]
    cases hcursor : cursors[index]? with
    | none => exact ⟨[], cursors, rfl, h, by simp⟩
    | some cursor =>
      obtain ⟨answer, after, hrun, hexact⟩ :=
        (h cursor (List.mem_of_getElem? hcursor)).run_withCursor call
      refine ⟨[⟨cursor, call, answer, after⟩], cursors.set index after, ?_, ?_,
        List.forall_mem_singleton.2 hexact⟩
      · dsimp only
        rw [hrun]
        rfl
      intro cursor' hcursor'
      rcases List.mem_or_eq_of_mem_set hcursor' with hcursor' | rfl
      · exact h cursor' hcursor'
      · exact hexact.after

/-- **Cursors stay in their frame.** Whatever is done with a cursor and its copies, the machine does
not stop: no position passes the end of the frame, no number leaves its word, no slice leaves the
frame. Every call ends in one of its ways and moves its cursor as far as that way says. -/
theorem runAll_isExact (buffer : FrameBuffer) (steps : List CursorStep) : ∃ events cursors,
    runAll steps [.start buffer] = .ok (events, cursors) ∧
    (∀ cursor ∈ cursors, cursor.IsIn buffer) ∧ ∀ event ∈ events, event.IsExact buffer := by
  have hstart : ∀ cursor ∈ [FrameCursor.start buffer], cursor.IsIn buffer :=
    List.forall_mem_singleton.2 ⟨rfl, FrameCursor.inside_start buffer⟩
  generalize [FrameCursor.start buffer] = cursors at hstart
  induction steps generalizing cursors with
  | nil => exact ⟨[], cursors, rfl, hstart, by simp⟩
  | cons step others ih =>
    obtain ⟨events, middle, hrun, hmiddle, hevents⟩ := step.run_isExact hstart
    obtain ⟨later, after, hruns, hafter, hlater⟩ := ih middle hmiddle
    refine ⟨events ++ later, after, ?_, hafter, ?_⟩
    · rw [runAll, hrun]
      show Except.bind (runAll others middle) _ = _
      rw [hruns]
      rfl
    · intro event hevent
      exact (List.mem_append.1 hevent).elim (hevents event) (hlater event)

end CursorStep

/-- Of a name that is cut off, only the length byte has been used up. -/
example : (CursorRead.name "application").run (.start ⟨[5, 97, 98], by decide⟩) =
    .ok (.error (.truncated "application" 5 2), ⟨⟨[5, 97, 98], by decide⟩, 1⟩) := rfl

end CommandWire
