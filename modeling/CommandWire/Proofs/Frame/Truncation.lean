import CommandWire.Proofs.Frame.Fields

/-!
# Words that end too early

A reading that is given only the front of a word reports a truncated frame. It never takes the front
for a word of its own, and it never finds another fault in it. `NoticesCuts` says this of a reading
and the language of its words. Like `Reads` it composes (`NoticesCuts.bind`): the cut lies inside
the first word, or it lies behind it and then inside the second one.
-/

namespace CommandWire.FrameRead

variable {α β : Type}

/-- The frame ended inside a field that needed more bytes than there were. -/
def IsTruncated (outcome : Except CodecError α) : Prop :=
  ∃ field needed remaining, remaining < needed ∧
    outcome = .error (.truncated field needed remaining)

/-- Of a word that has lost its end the operation reports that it is truncated. -/
def NoticesCuts (r : FrameRead α) (words : Bytes → α → Prop) : Prop :=
  ∀ cut lost a, words (cut ++ lost) a → lost ≠ [] → IsTruncated (r.run cut).1

/-- What fails with the failure of something truncated is truncated as well. -/
theorem IsTruncated.of_error {outcome : Except CodecError α} {outcome' : Except CodecError β}
    (h : IsTruncated outcome)
    (herror : ∀ failure, outcome = .error failure → outcome' = .error failure) :
    IsTruncated outcome' := by
  obtain ⟨field, needed, remaining, hlt, h⟩ := h
  exact ⟨field, needed, remaining, hlt, herror _ h⟩

/-- A failure of the first reading is the failure of the sequence. -/
theorem IsTruncated.bind {r : FrameRead α} {cut : Bytes} (h : IsTruncated (r.run cut).1)
    (f : α → FrameRead β) : IsTruncated ((r >>= f).run cut).1 := by
  refine h.of_error fun failure h => ?_
  rw [run_bind]
  generalize r.run cut = read at h
  obtain ⟨_, _⟩ := read
  cases h
  rfl

theorem NoticesCuts.bind {r : FrameRead α} {f : α → FrameRead β} {first : Bytes → α → Prop}
    {second : α → Bytes → β → Prop} (hcut : r.NoticesCuts first) (hr : r.Reads first)
    (hf : ∀ a, (f a).NoticesCuts (second a)) :
    (r >>= f).NoticesCuts fun word b => ∃ a u v, word = u ++ v ∧ first u a ∧ second a v b := by
  intro cut lost b h hlost
  obtain ⟨a, u, v, heq, hu, hv⟩ := h
  -- If the first word is there as a whole, the second reading sees the cut.
  have whole : ∀ front, cut = u ++ front → v = front ++ lost →
      IsTruncated ((r >>= f).run cut).1 := by
    rintro front rfl rfl
    rw [run_bind, (hr _ a front).2 ⟨u, rfl, hu⟩]
    exact hf a _ _ _ hv hlost
  rcases List.append_eq_append_iff.1 heq with ⟨missing, rfl, rfl⟩ | ⟨front, rfl, rfl⟩
  · cases missing with
    | nil => exact whole [] (by simp) rfl
    | cons b missing => exact (hcut _ _ _ hu (List.cons_ne_nil b missing)).bind f
  · exact whole front rfl rfl

theorem NoticesCuts.congr {r : FrameRead α} {words words' : Bytes → α → Prop}
    (hr : r.NoticesCuts words) (h : ∀ word a, words' word a → words word a) :
    r.NoticesCuts words' :=
  fun cut lost a hword => hr cut lost a (h _ _ hword)

/-- Where nothing is read, nothing can be cut. -/
theorem NoticesCuts.of_nil (r : FrameRead α) {words : Bytes → α → Prop}
    (h : ∀ word a, words word a → word = []) : r.NoticesCuts words :=
  fun _ _ _ hword hlost => absurd (List.append_eq_nil_iff.1 (h _ _ hword)).2 hlost

/-- Behind the last word nothing can be cut, whatever is made of the words. -/
theorem noticesCuts_end (r : FrameRead α) : r.NoticesCuts fun word _ => word = [] :=
  .of_nil r fun _ _ h => h

/-! ### Fields -/

theorem take_noticesCuts (field : String) (length : Nat) :
    (take field length).NoticesCuts fun word bytes => word = bytes ∧ bytes.length = length := by
  rintro cut lost _ ⟨rfl, hlength⟩ hlost
  have hlt : cut.length < length := by
    have := List.length_pos_iff.2 hlost
    rw [List.length_append] at hlength
    omega
  refine ⟨field, length, cut.length, hlt, ?_⟩
  show (if _ then _ else _ : Except CodecError Bytes × Bytes).1 = _
  rw [if_pos hlt]

theorem byte_noticesCuts (field : String) :
    (byte field).NoticesCuts fun word b => word = [b] := by
  intro cut lost b h hlost
  -- One byte can only be cut by losing it.
  have hcut : cut = [] := by
    rcases List.append_eq_singleton_iff.1 h with ⟨hcut, _⟩ | ⟨_, hnil⟩
    · exact hcut
    · exact absurd hnil hlost
  subst hcut
  exact ⟨field, 1, 0, Nat.zero_lt_one, rfl⟩

theorem name_noticesCuts (field : String) : (name field).NoticesCuts IsName := by
  refine ((byte_noticesCuts field).bind (byte_reads field) fun length =>
    (take_noticesCuts field length.toNat).bind (take_reads field length.toNat) fun bytes =>
      noticesCuts_end _).congr ?_
  rintro _ _ ⟨ascii, short⟩
  exact ⟨_, [_], _, rfl, rfl, _, _, [], (List.append_nil _).symm,
    ⟨rfl, (toNat_ofNat_length short).symm⟩, rfl⟩

theorem block_noticesCuts (field : String) : (block field).NoticesCuts IsBlock := by
  have body : ∀ length : UInt8, NoticesCuts
      (if length = 0 then return none else return some (← take field length.toNat))
      fun word _ => word.length = length.toNat := by
    intro length
    split
    next zero =>
      subst zero
      exact .of_nil _ fun _ _ h => List.eq_nil_of_length_eq_zero h
    next =>
      refine ((take_noticesCuts field length.toNat).bind (take_reads field length.toNat)
        fun bytes => noticesCuts_end _).congr ?_
      intro word _ h
      exact ⟨word, word, [], (List.append_nil _).symm, ⟨rfl, h⟩, rfl⟩
  refine ((byte_noticesCuts field).bind (byte_reads field) body).congr ?_
  intro word payload h
  rcases h with _ | ⟨_, short⟩
  · exact ⟨0, [0], [], rfl, rfl, rfl⟩
  · exact ⟨_, [_], _, rfl, rfl, (toNat_ofNat_length short).symm⟩

end CommandWire.FrameRead
