import CommandWire.Event.Codec
import CommandWire.Proofs.Event.Method
import CommandWire.Proofs.Registry.Lookup

/-!
# The language of frames

A frame is a version byte and a body; the body is a name for the application, a word for the method,
and a block for every parameter of the method:

    frame    : [version] [application] [method] [argument]*
    argument : 0 | [length] [bytes, which the codec of the parameter's type decodes]

How many blocks there are and which codecs read them is known only when the method has been read, so
the language of the blocks is a relation by recursion on the parameters (`AreArguments`). Decoding
accepts the words of `IsFrame` and nothing else (`decode_eq_ok_iff_isFrame`).

Codecs are looked up in the registry, which changes on the way. What is looked up does not, so the
language only needs to know the codec for each type at the beginning.
-/

namespace CommandWire

/-! ### Arguments -/

/-- The language of the arguments that a codec reads. A missing argument needs no codec. -/
inductive IsArgument (codec : AnyCodec) : Bytes → Option AnyValue → Prop
  | missing {word : Bytes} : IsBlock word none → IsArgument codec word none
  | absent {word bytes : Bytes} : IsBlock word (some bytes) →
      codec.decode (some bytes) = .ok .absent → IsArgument codec word none
  | value {word bytes : Bytes} {value : AnyValue} : IsBlock word (some bytes) →
      codec.decode (some bytes) = .ok (.value value) → IsArgument codec word (some value)

/-- One argument for each parameter, each in the language of the codec for its type. -/
inductive AreArguments (codecFor : ValueType → AnyCodec) :
    List Parameter → Bytes → List (Option AnyValue) → Prop
  | nil : AreArguments codecFor [] [] []
  | cons {p : Parameter} {parameters : List Parameter} {first rest : Bytes}
      {argument : Option AnyValue} {arguments : List (Option AnyValue)} :
      IsArgument (codecFor p.type) first argument →
      AreArguments codecFor parameters rest arguments →
      AreArguments codecFor (p :: parameters) (first ++ rest) (argument :: arguments)

theorem AreArguments.length_eq {codecFor : ValueType → AnyCodec} {parameters : List Parameter}
    {word : Bytes} {arguments : List (Option AnyValue)}
    (h : AreArguments codecFor parameters word arguments) :
    arguments.length = parameters.length := by
  induction h with
  | nil => rfl
  | cons _ _ ih => rw [List.length_cons, List.length_cons, ih]

/-! ### Bodies and frames -/

/-- The language of what follows the version byte. -/
inductive IsBody (methods : MethodDirectory) (codecFor : ValueType → AnyCodec) (v : WireVersion) :
    Bytes → CommandEvent AnyValue → Prop
  | mk {name called blocks : Bytes} {application : String} {m : Method}
      {arguments : List (Option AnyValue)} :
      IsName name application → IsMethod methods v called m →
      AreArguments codecFor m.parameters blocks arguments →
      IsBody methods codecFor v (name ++ called ++ blocks)
        ⟨application, m, arguments, some v.tag⟩

/-- The version that a first byte stands for. Where unknown versions are tolerated they stand for
the default version. -/
inductive IsVersion (policy : UnknownVersionPolicy) : UInt8 → WireVersion → Prop
  | known (v : WireVersion) : IsVersion policy v.tag v
  | unknown {tag : UInt8} : WireVersion.ofTag? tag = none → policy = .lenient →
      IsVersion policy tag .default

/-- The language of frames. -/
inductive IsFrame (methods : MethodDirectory) (policy : UnknownVersionPolicy)
    (codecFor : ValueType → AnyCodec) : Bytes → CommandEvent AnyValue → Prop
  | mk {tag : UInt8} {v : WireVersion} {body : Bytes} {e : CommandEvent AnyValue} :
      IsVersion policy tag v → IsBody methods codecFor v body e →
      IsFrame methods policy codecFor (tag :: body) e

namespace EventCodec

/-! ### Decoding arguments -/

/-- Decoding an argument changes nothing about which codecs there are. -/
theorem codecFor_decodeArgument (index : Nat) (p : Parameter) (unread : Bytes) (w : Workspace) :
    (decodeArgument index p unread w).2.registry.codecFor = w.registry.codecFor := by
  have looked : ∀ bytes,
      ((w.lookup p.type).2.decode (w.lookup p.type).1 bytes).2.registry.codecFor =
        w.registry.codecFor := fun _ => w.codecFor_lookup p.type
  rw [decodeArgument]
  split
  next => rfl
  next => rfl
  next bytes _ _ =>
    have h := looked bytes
    dsimp only
    split <;> next hd => rw [hd] at h; exact h

theorem decodeArgument_eq_ok_iff {index : Nat} {p : Parameter} {unread : Bytes} {w : Workspace}
    {argument : Option AnyValue} {rest : Bytes} :
    (decodeArgument index p unread w).1 = .ok (argument, rest) ↔
      ∃ word, unread = word ++ rest ∧ IsArgument (w.registry.codecFor p.type) word argument := by
  have hc : (w.lookup p.type).1 = w.registry.codecFor p.type := w.codec_lookup p.type
  have hb := FrameRead.block_reads "argument"
  constructor
  · intro h
    rw [decodeArgument] at h
    split at h
    next => cases h
    next hr =>
      obtain ⟨word, rfl, hw⟩ := (hb _ _ _).1 hr
      cases h
      exact ⟨word, rfl, .missing hw⟩
    next bytes _ hr =>
      obtain ⟨word, rfl, hw⟩ := (hb _ _ _).1 hr
      simp only [Workspace.decode, hc] at h
      cases hd : (w.registry.codecFor p.type).decode (some bytes) with
      | error failure =>
        rw [hd] at h
        cases h
      | ok decoded =>
        rw [hd] at h
        cases decoded with
        | value value =>
          cases h
          exact ⟨word, rfl, .value hw hd⟩
        | absent =>
          cases h
          exact ⟨word, rfl, .absent hw hd⟩
        | skipped => cases h
  · intro h
    obtain ⟨word, rfl, h⟩ := h
    cases h with
    | missing hw => rw [decodeArgument, (hb _ _ _).2 ⟨word, rfl, hw⟩]
    | absent hw hd =>
      rw [decodeArgument, (hb _ _ _).2 ⟨word, rfl, hw⟩]
      simp only [Workspace.decode, hc, hd]
    | value hw hd =>
      rw [decodeArgument, (hb _ _ _).2 ⟨word, rfl, hw⟩]
      simp only [Workspace.decode, hc, hd]

/-- Reading several arguments is reading one and then the others. -/
theorem decodeArguments_cons_eq_ok_iff {index : Nat} {p : Parameter} {parameters : List Parameter}
    {unread : Bytes} {w : Workspace} {arguments : List (Option AnyValue)} {rest : Bytes} :
    (decodeArguments index (p :: parameters) unread w).1 = .ok (arguments, rest) ↔
      ∃ argument middle others, arguments = argument :: others ∧
        (decodeArgument index p unread w).1 = .ok (argument, middle) ∧
        (decodeArguments (index + 1) parameters middle (decodeArgument index p unread w).2).1 =
          .ok (others, rest) := by
  rw [decodeArguments]
  cases decodeArgument index p unread w with
  | mk result after =>
    cases result with
    | error failure =>
      constructor
      · intro h
        cases h
      · intro h
        obtain ⟨_, _, _, _, ⟨⟩, _⟩ := h
    | ok read =>
      obtain ⟨argument, middle⟩ := read
      dsimp only
      constructor
      · intro h
        split at h
        next => cases h
        next others _ _ ho =>
          cases h
          exact ⟨argument, middle, others, rfl, rfl, congrArg Prod.fst ho⟩
      · intro h
        obtain ⟨_, _, others, rfl, ⟨⟩, ho⟩ := h
        split
        next hf =>
          rw [hf] at ho
          cases ho
        next hf =>
          rw [hf] at ho
          cases ho
          rfl

/-- By induction on the parameters: the blocks are read in order, and the codec for each type stays
what it was although the registry changes. -/
theorem decodeArguments_eq_ok_iff {index : Nat} {parameters : List Parameter} {unread : Bytes}
    {w : Workspace} {arguments : List (Option AnyValue)} {rest : Bytes} :
    (decodeArguments index parameters unread w).1 = .ok (arguments, rest) ↔
      ∃ word, unread = word ++ rest ∧
        AreArguments w.registry.codecFor parameters word arguments := by
  induction parameters generalizing index unread w arguments rest with
  | nil =>
    constructor
    · intro h
      cases h
      exact ⟨[], rfl, .nil⟩
    · intro h
      obtain ⟨_, rfl, ⟨⟩⟩ := h
      rfl
  | cons p parameters ih =>
    rw [decodeArguments_cons_eq_ok_iff]
    constructor
    · intro h
      obtain ⟨argument, middle, others, rfl, ha, ho⟩ := h
      obtain ⟨first, rfl, hfirst⟩ := decodeArgument_eq_ok_iff.1 ha
      obtain ⟨word, rfl, hothers⟩ := ih.1 ho
      rw [codecFor_decodeArgument] at hothers
      exact ⟨first ++ word, (List.append_assoc ..).symm, .cons hfirst hothers⟩
    · intro h
      obtain ⟨_, rfl, h⟩ := h
      cases h with
      | @cons _ _ first others argument arguments hfirst hothers =>
        refine ⟨argument, others ++ rest, arguments, rfl, ?_, ?_⟩
        · exact decodeArgument_eq_ok_iff.2 ⟨first, List.append_assoc .., hfirst⟩
        · refine ih.2 ⟨others, rfl, ?_⟩
          rwa [codecFor_decodeArgument]

/-! ### Decoding frames -/

theorem decodeHead_reads {c : EventCodec} {v : WireVersion} :
    (c.decodeHead v.variant).Reads fun word head =>
      ∃ name called, word = name ++ called ∧ IsName name head.1 ∧
        IsMethod c.methods v called head.2 := by
  refine ((FrameRead.name_reads _).bind fun application =>
    (Variant.readMethod_reads c.methods v).bind fun m => .pure (application, m)).congr ?_
  rintro word ⟨application, m⟩
  constructor
  · intro h
    obtain ⟨_, name, _, rfl, hname, _, called, _, rfl, hm, rfl, ⟨⟩⟩ := h
    rw [List.append_nil]
    exact ⟨name, called, rfl, hname, hm⟩
  · intro h
    obtain ⟨name, called, rfl, hname, hm⟩ := h
    exact ⟨_, name, called, rfl, hname, _, called, [], (List.append_nil _).symm, hm, rfl, rfl⟩

/-- The bytes after the version byte are read as a body, by a codec that has the variant of a
version for this byte. -/
theorem decode_eq_ok_iff_isBody {c : EventCodec} {tag : UInt8} {v : WireVersion}
    (hv : (c.variantFor tag).1 = .ok v.variant) {body : Bytes} {w : Workspace}
    {e : CommandEvent AnyValue} :
    (c.decode (tag :: body) w).1 = .ok e ↔ IsBody c.methods w.registry.codecFor v body e := by
  have hr : (FrameRead.byte "version").run (tag :: body) = (.ok tag, body) := rfl
  rw [decode, hr]
  dsimp only
  rw [hv]
  dsimp only
  constructor
  · intro h
    split at h
    next => cases h
    next application m unread hhead =>
      obtain ⟨_, rfl, name, called, rfl, hname, hm⟩ := (decodeHead_reads _ _ _).1 hhead
      split at h
      next => cases h
      next arguments rest _ hargs =>
        obtain ⟨blocks, rfl, hblocks⟩ := decodeArguments_eq_ok_iff.1 (congrArg Prod.fst hargs)
        -- What is left must be nothing, and then the blocks reach to the end.
        cases rest with
        | nil =>
          cases h
          rw [List.append_nil, WireVersion.tag_variant]
          exact .mk hname hm hblocks
        | cons => cases h
  · intro h
    obtain ⟨hname, hm, hblocks⟩ := h
    next name called blocks application m arguments =>
    rw [(decodeHead_reads _ (application, m) blocks).2 ⟨_, rfl, name, called, rfl, hname, hm⟩]
    dsimp only
    have hargs : (decodeArguments 0 m.parameters blocks
        { w with log := w.log ++ (c.variantFor tag).2 }).1 = .ok (arguments, []) :=
      decodeArguments_eq_ok_iff.2 ⟨blocks, (List.append_nil _).symm, hblocks⟩
    split
    next hf =>
      rw [hf] at hargs
      cases hargs
    next hf =>
      rw [hf] at hargs
      cases hargs
      rw [WireVersion.tag_variant]
      rfl

/-! ### The built-in variants -/

theorem ofTag?_eq_some_iff {tag : UInt8} {v : WireVersion} :
    WireVersion.ofTag? tag = some v ↔ tag = v.tag := by
  constructor
  · intro h
    rw [WireVersion.ofTag?] at h
    split at h
    next h0 =>
      cases h
      exact h0
    next =>
      split at h
      next h1 =>
        cases h
        exact h1
      next => cases h
  · intro h
    subst h
    cases v <;> rfl

theorem get?_variants_new (methods : MethodDirectory) (tag : UInt8) :
    (EventCodec.new methods).variants.get? tag =
      (WireVersion.ofTag? tag).map WireVersion.variant := by
  let added (m : SortedMap UInt8 Variant) (v : WireVersion) := m.insert v.variant.tag v.variant
  show (added (added .empty .default) .v1).get? tag = _
  rw [SortedMap.get?_insert, SortedMap.get?_insert]
  cases h : WireVersion.ofTag? tag with
  | some v =>
    rw [ofTag?_eq_some_iff] at h
    subst h
    cases v <;> rfl
  | none =>
    have other : ∀ v : WireVersion, v.variant.tag ≠ tag := fun v hv => by
      rw [ofTag?_eq_some_iff.2 ((WireVersion.tag_variant v).symm.trans hv).symm] at h
      cases h
    rw [if_neg (other .v1), if_neg (other .default)]
    rfl

theorem isVersion_iff {policy : UnknownVersionPolicy} {tag : UInt8} {v : WireVersion} :
    IsVersion policy tag v ↔ WireVersion.ofTag? tag = some v ∨
      (WireVersion.ofTag? tag = none ∧ policy = .lenient ∧ v = .default) := by
  constructor
  · intro h
    rcases h with _ | ⟨h, hp⟩
    · exact .inl (ofTag?_eq_some_iff.2 rfl)
    · exact .inr ⟨h, hp, rfl⟩
  · intro h
    rcases h with h | ⟨h, hp, rfl⟩
    · obtain rfl := ofTag?_eq_some_iff.1 h
      exact .known v
    · exact .unknown h hp

/-- The variant for a first byte is that of the version it stands for, if there is one. -/
theorem variantFor_eq_ok_iff {methods : MethodDirectory} {config : EventConfig} {tag : UInt8}
    {variant : Variant} :
    (({ EventCodec.new methods with config } : EventCodec).variantFor tag).1 = .ok variant ↔
      ∃ v, IsVersion config.unknownVersion tag v ∧ variant = v.variant := by
  simp only [isVersion_iff]
  rw [variantFor, get?_variants_new, get?_variants_new]
  cases h : WireVersion.ofTag? tag with
  | some v =>
    constructor
    · intro h
      cases h
      exact ⟨v, .inl rfl, rfl⟩
    · intro h
      obtain ⟨_, ⟨⟨⟩⟩ | ⟨⟨⟩, _⟩, rfl⟩ := h
      rfl
  | none =>
    dsimp only [Option.map_none]
    cases config.unknownVersion with
    | strict =>
      constructor
      · intro h
        cases h
      · intro h
        obtain ⟨_, ⟨⟨⟩⟩ | ⟨_, ⟨⟩, _⟩, _⟩ := h
    | lenient =>
      constructor
      · intro h
        cases h
        exact ⟨.default, .inr ⟨rfl, rfl, rfl⟩, rfl⟩
      · intro h
        obtain ⟨_, ⟨⟨⟩⟩ | ⟨_, _, rfl⟩, rfl⟩ := h
        rfl

/-- A frame that is decoded has a first byte for which there is a variant. -/
theorem variantFor_of_decode_eq_ok {c : EventCodec} {frame : Bytes} {w : Workspace}
    {e : CommandEvent AnyValue} (h : (c.decode frame w).1 = .ok e) :
    ∃ tag body variant, frame = tag :: body ∧ (c.variantFor tag).1 = .ok variant := by
  cases frame with
  | nil => cases h
  | cons tag body =>
    have hr : (FrameRead.byte "version").run (tag :: body) = (.ok tag, body) := rfl
    rw [decode, hr] at h
    dsimp only at h
    cases hv : (c.variantFor tag).1 with
    | error failure =>
      rw [hv] at h
      cases h
    | ok variant => exact ⟨tag, body, variant, rfl, hv⟩

/-- **The decoder accepts exactly its grammar.** An event codec with the built-in variants decodes
the words of the language of frames to what they mean, and refuses all other bytes; so an event that
has been decoded has an argument for each parameter of its method. -/
theorem decode_eq_ok_iff_isFrame (methods : MethodDirectory) (config : EventConfig) (frame : Bytes)
    (w : Workspace) (e : CommandEvent AnyValue) :
    let c := { EventCodec.new methods with config }
    ((c.decode frame w).1 = .ok e ↔
      IsFrame methods config.unknownVersion w.registry.codecFor frame e) ∧
    ((c.decode frame w).1 = .ok e → e.arguments.length = e.method.parameters.length) := by
  intro c
  have hiff : (c.decode frame w).1 = .ok e ↔
      IsFrame methods config.unknownVersion w.registry.codecFor frame e := by
    constructor
    · intro h
      obtain ⟨tag, body, variant, rfl, hv⟩ := variantFor_of_decode_eq_ok h
      obtain ⟨v, hversion, rfl⟩ := variantFor_eq_ok_iff.1 hv
      exact .mk hversion ((decode_eq_ok_iff_isBody hv).1 h)
    · intro h
      obtain ⟨hversion, hbody⟩ := h
      exact (decode_eq_ok_iff_isBody (variantFor_eq_ok_iff.2 ⟨_, hversion, rfl⟩)).2 hbody
  refine ⟨hiff, fun h => ?_⟩
  obtain ⟨_, _, _, hblocks⟩ := hiff.1 h
  exact hblocks.length_eq

end EventCodec

end CommandWire
