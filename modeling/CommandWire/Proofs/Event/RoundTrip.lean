import CommandWire.Proofs.Event.Decoding

/-!
# Events survive the wire

What one event codec encodes, another one over the same method table decodes to the same event
(`decode_encode`). The two may be configured differently and their registries may differ, as long as
the codecs for the method's parameters read what was written: each argument must be faithful for its
codec, and the receiver's codec must decode like the sender's.

The proof never compares the two programs with each other. Both are compared with the language of
bodies: what is written is a word for the event, and every word for an event is read as that event.
-/

namespace CommandWire

namespace AnyCodec

/-- The two codecs decode alike. -/
def DecodesAlike (a b : AnyCodec) : Prop := ∀ bytes, a.decode bytes = b.decode bytes

/-- If the codec encodes the value at all, then as bytes that the other one decodes to the same
value. -/
def CarriesTo (codec other : AnyCodec) (value : AnyValue) : Prop :=
  ∀ out, codec.encode (some value) = .ok out →
    ∃ bytes, out = some bytes ∧ other.decode (some bytes) = .ok (.value value)

/-- The codec decodes what it encodes the value to. -/
def FaithfulAt (codec : AnyCodec) (value : AnyValue) : Prop := codec.CarriesTo codec value

theorem FaithfulAt.carriesTo {codec other : AnyCodec} {value : AnyValue}
    (h : codec.FaithfulAt value) (halike : codec.DecodesAlike other) :
    codec.CarriesTo other value := by
  intro out hout
  obtain ⟨bytes, hbytes, hdecode⟩ := h out hout
  rw [halike] at hdecode
  exact ⟨bytes, hbytes, hdecode⟩

end AnyCodec

namespace EventCodec

/-- The event codec works on the methods of a table and has the built-in variants at their tags. -/
structure BuiltOver (c : EventCodec) (t : MethodTable) : Prop where
  methods_eq : c.methods = t.directory
  variants_eq : ∀ v : WireVersion, c.variants.get? v.tag = some v.variant

theorem builtOver_new (t : MethodTable) (config : EventConfig) :
    BuiltOver { EventCodec.new t.directory with config } t where
  methods_eq := rfl
  variants_eq v := by
    show (EventCodec.new t.directory).variants.get? v.tag = _
    rw [get?_variants_new, ofTag?_eq_some_iff.2 rfl]
    rfl

/-! ### What is written -/

/-- The head says the version, the application and the method. -/
theorem encodeHead_eq_ok {c : EventCodec} {t : MethodTable} (ht : t.Valid)
    (hc : c.methods = t.directory) {v : WireVersion} {application : String} {m : Method}
    (hm : (t.index? m).isSome) {tag : UInt8} {out : Bytes}
    (h : (c.encodeHead v.variant tag application m).run [] = (.ok (), out)) :
    ∃ name called, out = tag :: (name ++ called) ∧ IsName name application ∧
      IsMethod t.directory v called m := by
  rw [encodeHead, hc] at h
  obtain ⟨_, _, h1, h⟩ := run_bind_eq_ok_iff.1 h
  obtain ⟨_, _, h2, h⟩ := run_bind_eq_ok_iff.1 h
  obtain ⟨_, rfl, rfl⟩ := (FrameWrite.byte_writes tag _ _ _).1 h1
  obtain ⟨name, rfl, hname⟩ := (FrameWrite.name_writes _ application _ _ _).1 h2
  obtain ⟨called, rfl, hcalled⟩ := isMethod_of_writeMethod ht hm h
  exact ⟨name, called, rfl, hname, hcalled⟩

/-- By induction on the arguments: what has been written of them is a word for any codecs that read
what the codecs of the registry write. -/
theorem areArguments_of_encodeArguments {c : EventCodec} {codecFor : ValueType → AnyCodec}
    {pairs : List (Parameter × Option AnyValue)} {index : Nat} {written out : Bytes}
    {w after : Workspace}
    (hread : ∀ p value, (p, some value) ∈ pairs →
      (w.registry.codecFor p.type).CarriesTo (codecFor p.type) value)
    (h : c.encodeArguments Workspace.encode index pairs written w = (.ok out, after)) :
    ∃ word, out = written ++ word ∧
      AreArguments codecFor (pairs.map (·.1)) word (pairs.map (·.2)) := by
  induction pairs generalizing index written w with
  | nil =>
    cases h
    exact ⟨[], (List.append_nil _).symm, .nil⟩
  | cons pair pairs ih =>
    obtain ⟨p, argument⟩ := pair
    have hrest : ∀ q value, (q, some value) ∈ pairs →
        (w.registry.codecFor q.type).CarriesTo (codecFor q.type) value := fun q value hq =>
      hread q value (List.mem_cons_of_mem _ hq)
    cases argument with
    | none =>
      rw [encodeArguments] at h
      split at h
      next => cases h
      next hblock =>
        -- The limit for blocks is the sender's alone; a reader has none.
        obtain ⟨first, rfl, hfirst, _⟩ := (FrameWrite.block_writes _ none _ _ _ _).1 hblock
        obtain ⟨rest, rfl, hothers⟩ := ih hrest h
        exact ⟨first ++ rest, List.append_assoc .., .cons (.missing hfirst) hothers⟩
    | some value =>
      rw [encodeArguments] at h
      have hc : (w.lookup p.type).1 = w.registry.codecFor p.type := w.codec_lookup p.type
      have hr : (w.lookup p.type).2.registry.codecFor = w.registry.codecFor :=
        w.codecFor_lookup p.type
      simp only [Workspace.encode, hc] at h
      cases he : (w.registry.codecFor p.type).encode (some value) with
      | error failure =>
        rw [he] at h
        cases h
      | ok encoded =>
        obtain ⟨bytes, rfl, hdecode⟩ := hread p value List.mem_cons_self _ he
        rw [he] at h
        dsimp only at h
        split at h
        next => cases h
        next hblock =>
          obtain ⟨first, rfl, hfirst, _⟩ :=
            (FrameWrite.block_writes _ (some bytes) _ _ _ _).1 hblock
          obtain ⟨rest, rfl, hothers⟩ := ih (by simpa only [hr] using hrest) h
          exact ⟨first ++ rest, List.append_assoc .., .cons (.value hfirst hdecode) hothers⟩

/-- What encoding an event amounts to: the variant is known, the numbers of parameters and arguments
agree, and the head and the blocks are written one after the other. -/
theorem encodeBy_eq_ok {ν : Type} {c : EventCodec}
    {encode : AnyCodec → ν → Workspace → Except CodecError (Option Bytes) × Workspace}
    {e : CommandEvent ν} {w : Workspace} {frame : Bytes}
    (h : (c.encodeBy encode e w).1 = .ok frame) :
    ∃ variant head after,
      c.variants.get? (e.version.getD c.config.version.tag) = some variant ∧
      e.method.parameters.length = e.arguments.length ∧
      (c.encodeHead variant (e.version.getD c.config.version.tag) e.application e.method).run [] =
        (.ok (), head) ∧
      c.encodeArguments encode 0 (e.method.parameters.zip e.arguments) head w =
        (.ok frame, after) := by
  rw [encodeBy] at h
  split at h
  next => cases h
  next variant hvariant =>
    split at h
    next => cases h
    next hl =>
      split at h
      next => cases h
      next head hhead =>
        split at h
        next => cases h
        next after ha =>
          cases h
          exact ⟨variant, head, after, hvariant, Decidable.not_not.1 hl, hhead, ha⟩

/-- What is encoded is a word for the event, read with any codecs that the sender's codecs carry the
arguments to. -/
theorem isBody_of_encode {t : MethodTable} (ht : t.Valid) {c : EventCodec} (hc : c.BuiltOver t)
    {codecFor : ValueType → AnyCodec} {w : Workspace} {e : CommandEvent AnyValue} {v : WireVersion}
    (hversion : e.version.getD c.config.version.tag = v.tag) (hm : (t.index? e.method).isSome)
    (hread : ∀ p value, (p, some value) ∈ e.method.parameters.zip e.arguments →
      (w.registry.codecFor p.type).CarriesTo (codecFor p.type) value)
    {frame : Bytes} (h : (c.encode e w).1 = .ok frame) :
    ∃ body, frame = v.tag :: body ∧
      IsBody t.directory codecFor v body { e with version := some v.tag } := by
  obtain ⟨variant, head, after, hvariant, hl, hhead, hargs⟩ := encodeBy_eq_ok h
  rw [hversion] at hvariant hhead
  obtain rfl := Option.some.inj ((hc.variants_eq v).symm.trans hvariant)
  obtain ⟨name, called, rfl, hname, hcalled⟩ := encodeHead_eq_ok ht hc.methods_eq hm hhead
  obtain ⟨blocks, rfl, hblocks⟩ := areArguments_of_encodeArguments hread hargs
  -- The numbers agree, so no parameter and no argument has been left out of the pairs.
  rw [List.map_fst_zip (Nat.le_of_eq hl), List.map_snd_zip (Nat.le_of_eq hl.symm)] at hblocks
  exact ⟨name ++ called ++ blocks, rfl, .mk hname hcalled hblocks⟩

/-- **Events survive the wire.** If a sender encodes an event, then a receiver over the same method
table decodes the frame to the same event, marked with the version in which it was sent. -/
theorem decode_encode (inserted : List Method) (sender receiver : EventCodec)
    (hsender : sender.BuiltOver (MethodTable.empty.insertAll inserted))
    (hreceiver : receiver.BuiltOver (MethodTable.empty.insertAll inserted))
    (ws wr : Workspace) (e : CommandEvent AnyValue) (v : WireVersion)
    (hversion : e.version.getD sender.config.version.tag = v.tag)
    (hm : ((MethodTable.empty.insertAll inserted).index? e.method).isSome)
    (halike : ∀ p ∈ e.method.parameters,
      (ws.registry.codecFor p.type).DecodesAlike (wr.registry.codecFor p.type))
    (hfaithful : ∀ p value, (p, some value) ∈ e.method.parameters.zip e.arguments →
      (ws.registry.codecFor p.type).FaithfulAt value)
    {frame : Bytes} (h : (sender.encode e ws).1 = .ok frame) :
    (receiver.decode frame wr).1 = .ok { e with version := some v.tag } := by
  have ht := MethodTable.valid_insertAll MethodTable.valid_empty inserted
  have hread : ∀ p value, (p, some value) ∈ e.method.parameters.zip e.arguments →
      (ws.registry.codecFor p.type).CarriesTo (wr.registry.codecFor p.type) value :=
    fun p value hp => (hfaithful p value hp).carriesTo (halike p (List.of_mem_zip hp).1)
  obtain ⟨body, rfl, hbody⟩ := isBody_of_encode ht hsender hversion hm hread h
  have hv : (receiver.variantFor v.tag).1 = .ok v.variant := by
    rw [variantFor, hreceiver.variants_eq]
  rw [decode_eq_ok_iff_isBody hv, hreceiver.methods_eq]
  exact hbody

/-- A method with two truth values. -/
def switchMethod : Method :=
  ⟨"cachesync.Commands", "switch", [⟨"boolean", .of Bool⟩, ⟨"boolean", .of Bool⟩]⟩

/-- The sender uses the default settings, the receiver others; the second argument is missing. -/
theorem decode_encode_switchMethod :
    let t := MethodTable.empty.insertAll [switchMethod]
    let sender := { EventCodec.new t.directory with config := .default }
    let receiver := { EventCodec.new t.directory with config := ⟨.v1, .lenient, 1⟩ }
    let w := Workspace.of (Registry.empty.registerTyped Codec.bool).registry .empty
    ∃ frame, (sender.encode ⟨"app", switchMethod, [some (.of true), none], none⟩ w).1 = .ok frame ∧
      (receiver.decode frame w).1 =
        .ok ⟨"app", switchMethod, [some (.of true), none], some WireVersion.default.tag⟩ := by
  intro t sender receiver w
  have hm : (t.index? switchMethod).isSome := by
    simp [t, MethodTable.insertAll, MethodTable.empty, MethodTable.insert, MethodTable.capacity,
      MethodTable.index?]
  have hfaithful : (w.registry.codecFor (.of Bool)).FaithfulAt (.of true) := by
    rintro _ ⟨⟩
    exact ⟨[1], rfl, rfl⟩
  refine ⟨_, rfl, decode_encode [switchMethod] sender receiver (builtOver_new t _)
    (builtOver_new t _) w w ⟨"app", switchMethod, [some (.of true), none], none⟩ .default rfl hm
    (fun _ _ _ => rfl) ?_ rfl⟩
  rintro p value (_ | ⟨_, _ | ⟨_, ⟨⟩⟩⟩)
  exact hfaithful

end EventCodec

end CommandWire
