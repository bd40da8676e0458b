import CommandWire.Proofs.Event.Decoding
import CommandWire.Proofs.Frame.Truncation

/-!
# Frames of the wrong length

No frame is the beginning of another one. A receiver that gets only the beginning of a frame reports
a truncated frame, and one that gets more than a frame reports the surplus; neither takes what it
got for another event or finds another fault (`decode_of_decode_eq_ok`). So damage to the length of
a frame is always told apart from peers that do not fit together.

The second reading may happen later, when look-ups have entered fallbacks, so it has a workspace of
its own; the two must agree on the codec for each type.
-/

namespace CommandWire

open FrameRead

/-! ### Methods -/

namespace Variant

theorem readParameters_noticesCuts (count : Nat) :
    (readParameters count).NoticesCuts fun word names =>
      AreNames word names ∧ names.length = count := by
  induction count with
  | zero =>
    refine .of_nil _ fun word names h => ?_
    obtain ⟨_ | _, hl⟩ := h
    · rfl
    · cases hl
  | succ count ih =>
    refine ((name_noticesCuts _).bind (name_reads _) fun name =>
      ih.bind (readParameters_reads count) fun names =>
        noticesCuts_end _).congr ?_
    intro word names h
    obtain ⟨_ | ⟨hu, hv⟩, hl⟩ := h
    · cases hl
    · exact ⟨_, _, _, rfl, hu, _, _, [], (List.append_nil _).symm, ⟨hv, Nat.succ.inj hl⟩, rfl⟩

theorem readByName_noticesCuts (methods : MethodDirectory) :
    (readByName methods).NoticesCuts (IsMethod methods .default) := by
  refine ((name_noticesCuts _).bind (name_reads _) fun interface =>
    (name_noticesCuts _).bind (name_reads _) fun name =>
      (byte_noticesCuts _).bind (byte_reads _) fun count =>
        (readParameters_noticesCuts _).bind (readParameters_reads _) fun types =>
          noticesCuts_end _).congr ?_
  intro word m h
  rcases h with ⟨hi, hn, short, hps, _⟩ | _
  exact ⟨_, _, _, List.append_assoc .., hi, _, _, _, rfl, hn, _, [_], _, rfl, rfl, _, _, [],
    (List.append_nil _).symm, ⟨hps, (UInt8.toNat_ofNat_of_lt' short).symm⟩, rfl⟩

theorem readByIndex_noticesCuts (methods : MethodDirectory) :
    (readByIndex methods).NoticesCuts (IsMethod methods .v1) := by
  refine ((take_noticesCuts _ 2).bind (take_reads _ 2) fun bytes =>
    noticesCuts_end _).congr ?_
  intro word m h
  rcases h with _ | _
  exact ⟨_, _, [], (List.append_nil _).symm, ⟨rfl, length_shortBytes _⟩, rfl⟩

theorem readMethod_noticesCuts (methods : MethodDirectory) (v : WireVersion) :
    (v.variant.readMethod methods).NoticesCuts (IsMethod methods v) := by
  cases v with
  | default => exact readByName_noticesCuts methods
  | v1 => exact readByIndex_noticesCuts methods

end Variant

namespace EventCodec

theorem decodeHead_noticesCuts {c : EventCodec} {v : WireVersion} :
    (c.decodeHead v.variant).NoticesCuts fun word head =>
      ∃ name called, word = name ++ called ∧ IsName name head.1 ∧
        IsMethod c.methods v called head.2 := by
  refine ((name_noticesCuts _).bind (name_reads _) fun application =>
    (Variant.readMethod_noticesCuts c.methods v).bind (Variant.readMethod_reads c.methods v)
      fun m => noticesCuts_end _).congr ?_
  intro word head h
  obtain ⟨name, called, rfl, hname, hm⟩ := h
  exact ⟨_, name, called, rfl, hname, _, called, [], (List.append_nil _).symm, hm, rfl⟩

/-! ### Arguments -/

/-- An argument that is cut has its block cut. -/
theorem isTruncated_decodeArgument {codec : AnyCodec} {cut lost : Bytes}
    {argument : Option AnyValue} (h : IsArgument codec (cut ++ lost) argument) (hlost : lost ≠ [])
    (index : Nat) (p : Parameter) (w : Workspace) :
    IsTruncated (decodeArgument index p cut w).1 := by
  have hblock : ∃ payload, IsBlock (cut ++ lost) payload := by
    rcases h with hb | ⟨hb, _⟩ | ⟨hb, _⟩ <;> exact ⟨_, hb⟩
  obtain ⟨payload, hb⟩ := hblock
  refine (block_noticesCuts "argument" cut lost payload hb hlost).of_error fun failure h => ?_
  rw [decodeArgument]
  generalize (block "argument").run cut = read at h
  obtain ⟨_, _⟩ := read
  cases h
  rfl

/-- Reading several arguments fails with the first of them. -/
theorem decodeArguments_cons_of_error {index : Nat} {p : Parameter} {parameters : List Parameter}
    {unread : Bytes} {w : Workspace} {failure : CodecError}
    (h : (decodeArgument index p unread w).1 = .error failure) :
    (decodeArguments index (p :: parameters) unread w).1 = .error failure := by
  rw [decodeArguments]
  generalize decodeArgument index p unread w = decoded at h
  obtain ⟨_, _⟩ := decoded
  cases h
  rfl

/-- Reading several arguments fails after the first of them, with the others. -/
theorem decodeArguments_cons_of_ok {index : Nat} {p : Parameter} {parameters : List Parameter}
    {unread middle : Bytes} {w : Workspace} {argument : Option AnyValue} {failure : CodecError}
    (h : (decodeArgument index p unread w).1 = .ok (argument, middle))
    (hothers : (decodeArguments (index + 1) parameters middle
      (decodeArgument index p unread w).2).1 = .error failure) :
    (decodeArguments index (p :: parameters) unread w).1 = .error failure := by
  rw [decodeArguments]
  generalize decodeArgument index p unread w = decoded at h hothers
  obtain ⟨_, after⟩ := decoded
  cases h
  dsimp only at hothers ⊢
  generalize decodeArguments (index + 1) parameters middle after = others at hothers
  obtain ⟨_, _⟩ := others
  cases hothers
  rfl

/-- By induction on the parameters: the arguments before the cut are decoded as they were, and the
one that is cut is reported. -/
theorem isTruncated_decodeArguments {parameters : List Parameter} {cut lost : Bytes}
    {arguments : List (Option AnyValue)} {w : Workspace}
    (h : AreArguments w.registry.codecFor parameters (cut ++ lost) arguments) (hlost : lost ≠ [])
    (index : Nat) : IsTruncated (decodeArguments index parameters cut w).1 := by
  generalize hword : cut ++ lost = word at h
  induction parameters generalizing cut word arguments w index with
  | nil =>
    cases h
    exact absurd (List.append_eq_nil_iff.1 hword).2 hlost
  | cons p parameters ih =>
    cases h with
    | @cons _ _ first rest argument arguments hfirst hrest =>
    -- If the first argument is there as a whole, the cut is in the others.
    have whole : ∀ front, cut = first ++ front → rest = front ++ lost →
        IsTruncated (decodeArguments index (p :: parameters) cut w).1 := by
      intro front hcut hfront
      have hdecoded : (decodeArgument index p cut w).1 = .ok (argument, front) :=
        decodeArgument_eq_ok_iff.2 ⟨first, hcut, hfirst⟩
      rw [← codecFor_decodeArgument index p cut w] at hrest
      exact (ih (index + 1) _ hfront.symm hrest).of_error fun _ =>
        decodeArguments_cons_of_ok hdecoded
    rcases List.append_eq_append_iff.1 hword with ⟨missing, rfl, rfl⟩ | ⟨front, hcut, hrest'⟩
    · cases missing with
      | nil => exact whole [] (by simp) rfl
      | cons b missing =>
        exact (isTruncated_decodeArgument hfirst (List.cons_ne_nil b missing) index p w).of_error
          fun _ => decodeArguments_cons_of_error
    · exact whole front hcut hrest'

/-! ### Frames -/

section failures

variable {c : EventCodec} {tag : UInt8} {variant : Variant} {body blocks : Bytes}
  {application : String} {m : Method} {w : Workspace} {failure : CodecError}

/-- The workspace in which the arguments of a frame are decoded. -/
abbrev reported (c : EventCodec) (tag : UInt8) (w : Workspace) : Workspace :=
  { w with log := w.log ++ (c.variantFor tag).2 }

/-- Decoding a frame goes on with its head as soon as the variant is known. -/
theorem decode_of_variantFor (hv : (c.variantFor tag).1 = .ok variant) :
    c.decode (tag :: body) w =
      match (c.decodeHead variant).run body with
      | (.error failure, _) => (.error failure, c.reported tag w)
      | (.ok (application, m), blocks) =>
        match decodeArguments 0 m.parameters blocks (c.reported tag w) with
        | (.error failure, w) => (.error failure, w)
        | (.ok (arguments, unread), w) =>
          match done unread with
          | .error failure => (.error failure, w)
          | .ok () => (.ok ⟨application, m, arguments, some variant.tag⟩, w) := by
  have hr : (FrameRead.byte "version").run (tag :: body) = (.ok tag, body) := rfl
  rw [decode, hr]
  dsimp only
  generalize (c.variantFor tag).1 = chosen at hv ⊢
  subst hv
  rfl

theorem decode_of_head_error (hv : (c.variantFor tag).1 = .ok variant)
    (h : ((c.decodeHead variant).run body).1 = .error failure) :
    (c.decode (tag :: body) w).1 = .error failure := by
  rw [decode_of_variantFor hv]
  generalize (c.decodeHead variant).run body = head at h
  obtain ⟨_, _⟩ := head
  cases h
  rfl

theorem decode_of_arguments_error (hv : (c.variantFor tag).1 = .ok variant)
    (hhead : (c.decodeHead variant).run body = (.ok (application, m), blocks))
    (h : (decodeArguments 0 m.parameters blocks (c.reported tag w)).1 = .error failure) :
    (c.decode (tag :: body) w).1 = .error failure := by
  rw [decode_of_variantFor hv, hhead]
  dsimp only
  generalize decodeArguments 0 m.parameters blocks (c.reported tag w) = decoded at h
  obtain ⟨_, _⟩ := decoded
  cases h
  rfl

theorem decode_of_done_error (hv : (c.variantFor tag).1 = .ok variant)
    (hhead : (c.decodeHead variant).run body = (.ok (application, m), blocks))
    {arguments : List (Option AnyValue)} {rest : Bytes}
    (h : (decodeArguments 0 m.parameters blocks (c.reported tag w)).1 = .ok (arguments, rest))
    (hdone : done rest = .error failure) : (c.decode (tag :: body) w).1 = .error failure := by
  rw [decode_of_variantFor hv, hhead]
  dsimp only
  generalize decodeArguments 0 m.parameters blocks (c.reported tag w) = decoded at h
  obtain ⟨_, _⟩ := decoded
  cases h
  dsimp only
  rw [hdone]

end failures

/-- Of a body that has lost its end, the receiver reports that it is truncated. -/
theorem isTruncated_decode {c : EventCodec} {tag : UInt8} {v : WireVersion}
    (hv : (c.variantFor tag).1 = .ok v.variant) {cut lost : Bytes} {w : Workspace}
    {e : CommandEvent AnyValue} (h : IsBody c.methods w.registry.codecFor v (cut ++ lost) e)
    (hlost : lost ≠ []) : IsTruncated (c.decode (tag :: cut) w).1 := by
  generalize hword : cut ++ lost = word at h
  obtain ⟨hname, hm, hblocks⟩ := h
  next name called blocks application m arguments =>
  have hhead : ∀ rest, (c.decodeHead v.variant).run (name ++ called ++ rest) =
      (.ok (application, m), rest) := fun rest =>
    (decodeHead_reads _ (application, m) rest).2 ⟨_, rfl, name, called, rfl, hname, hm⟩
  -- If the head is there as a whole, the cut is in the blocks.
  have whole : ∀ front, cut = name ++ called ++ front → blocks = front ++ lost →
      IsTruncated (c.decode (tag :: cut) w).1 := by
    rintro front rfl rfl
    exact (isTruncated_decodeArguments (w := c.reported tag w) hblocks hlost 0).of_error fun _ =>
      decode_of_arguments_error hv (hhead front)
  rcases List.append_eq_append_iff.1 hword with ⟨missing, hmissing, rfl⟩ | ⟨front, hcut, hrest⟩
  · cases missing with
    | nil => exact whole [] (by simpa using hmissing.symm) rfl
    | cons b missing =>
      have hcut := decodeHead_noticesCuts (c := c) cut (b :: missing) (application, m)
        ⟨name, called, hmissing.symm, hname, hm⟩ (List.cons_ne_nil b missing)
      exact hcut.of_error fun _ => decode_of_head_error hv
  · exact whole front hcut hrest

/-- What follows a body is reported as a surplus, with its length. -/
theorem decode_surplus {c : EventCodec} {tag : UInt8} {v : WireVersion}
    (hv : (c.variantFor tag).1 = .ok v.variant) {body : Bytes} {w : Workspace}
    {e : CommandEvent AnyValue} (h : IsBody c.methods w.registry.codecFor v body e)
    {surplus : Bytes} (hsurplus : surplus ≠ []) :
    (c.decode (tag :: (body ++ surplus)) w).1 = .error (.trailingBytes surplus.length) := by
  obtain ⟨hname, hm, hblocks⟩ := h
  next name called blocks application m arguments =>
  have hhead : (c.decodeHead v.variant).run (name ++ called ++ blocks ++ surplus) =
      (.ok (application, m), blocks ++ surplus) :=
    (decodeHead_reads _ (application, m) _).2
      ⟨_, List.append_assoc .., name, called, rfl, hname, hm⟩
  have hdone : done surplus = .error (.trailingBytes surplus.length) := by
    rw [done, if_neg (by simpa using hsurplus)]
  exact decode_of_done_error hv hhead
    (decodeArguments_eq_ok_iff.2 ⟨blocks, rfl, hblocks⟩) hdone

/-- **No frame is the beginning of another.** Of whatever decodes, every beginning is reported as
truncated, and every continuation as having so many bytes too many. -/
theorem decode_of_decode_eq_ok (methods : MethodDirectory) (config : EventConfig)
    (w w' : Workspace) (hw : w'.registry.codecFor = w.registry.codecFor) (frame : Bytes)
    (e : CommandEvent AnyValue)
    (h : (({ EventCodec.new methods with config } : EventCodec).decode frame w).1 = .ok e) :
    let c := { EventCodec.new methods with config }
    (∀ cut, cut <+: frame → cut ≠ frame → ∃ field needed remaining, remaining < needed ∧
      (c.decode cut w').1 = .error (.truncated field needed remaining)) ∧
    ∀ surplus, surplus ≠ [] →
      (c.decode (frame ++ surplus) w').1 = .error (.trailingBytes surplus.length) := by
  intro c
  obtain ⟨tag, body, variant, rfl, hv⟩ := variantFor_of_decode_eq_ok h
  obtain ⟨v, _, rfl⟩ := variantFor_eq_ok_iff.1 hv
  have hbody : IsBody c.methods w'.registry.codecFor v body e := by
    rw [hw]
    exact (decode_eq_ok_iff_isBody hv).1 h
  constructor
  · rintro cut ⟨lost, hlost⟩ hne
    cases cut with
    | nil => exact ⟨"version", 1, 0, Nat.zero_lt_one, rfl⟩
    | cons b cut =>
      obtain ⟨hb, hcut⟩ := List.cons.inj hlost
      subst hb
      replace hbody : IsBody c.methods w'.registry.codecFor v (cut ++ lost) e := by
        rwa [show cut ++ lost = body from hcut]
      refine isTruncated_decode hv hbody ?_
      rintro rfl
      exact hne (by rw [← hcut, List.append_eq, List.append_nil])
  · intro surplus hsurplus
    exact decode_surplus hv hbody hsurplus

/-- A call of a method with two truth values by its index, cut in the index and continued by two
bytes. By then a look-up has entered a fallback. -/
theorem decode_of_decode_eq_ok_indexed :
    let m : Method :=
      ⟨"cachesync.Commands", "switch", [⟨"boolean", .of Bool⟩, ⟨"boolean", .of Bool⟩]⟩
    let c := { EventCodec.new (.ofIndices [(7, m)]) with config := .default }
    let w := Workspace.of (Registry.empty.registerTyped Codec.bool).registry .empty
    let w' := (w.lookup (.of String)).2
    let frame : Bytes := [1, 3, 97, 112, 112, 0, 7, 1, 1, 0]
    (c.decode frame w).1 = .ok ⟨"app", m, [some (.of true), none], some 1⟩ ∧
      (∃ field needed remaining, remaining < needed ∧
        (c.decode (frame.take 6) w').1 = .error (.truncated field needed remaining)) ∧
      (c.decode (frame ++ [0, 0]) w').1 = .error (.trailingBytes 2) := by
  intro m c w w' frame
  have h : (c.decode frame w).1 = .ok ⟨"app", m, [some (.of true), none], some 1⟩ := rfl
  obtain ⟨hcut, hsurplus⟩ :=
    decode_of_decode_eq_ok (.ofIndices [(7, m)]) .default w w' (w.codecFor_lookup _) frame _ h
  exact ⟨h, hcut _ (List.take_prefix 6 frame) (by decide), hsurplus [0, 0] (by decide)⟩

end EventCodec

end CommandWire
