import CommandWire.Proofs.Event.Damage
import CommandWire.Proofs.Method.Growth

/-!
# Events over a table that has grown

Peers are upgraded one after the other, so for a while some of them know more methods than others.
That does not come between them: what could be read over the former table is read as before, and an
event whose method was known is written as before, byte for byte (`wire_unchanged_insertAll`). None
of this asks in which order or with what success the later methods were inserted.

All that the proofs use is that the later directory extends the former one, and they are about that:
the language of methods only gets larger (`IsMethod.of_extends`), and what a variant writes of a known
method depends on its index alone (`writeMethod_of_extends`).
-/

namespace CommandWire

variable {methods former : MethodDirectory}

/-! ### Methods -/

theorem IsMethod.of_extends (h : methods.Extends former) {v : WireVersion} {word : Bytes}
    {m : Method} (hm : IsMethod former v word m) : IsMethod methods v word m := by
  cases hm with
  | byName hi hn short hps hm => exact .byName hi hn short hps (h.bySignature hm)
  | byIndex hm => exact .byIndex (h.byIndex hm)

theorem writeMethod_of_extends (h : methods.Extends former) (v : WireVersion) {m : Method}
    (hm : (former.index? m).isSome) :
    v.variant.writeMethod methods m = v.variant.writeMethod former m := by
  cases v with
  | default => rfl
  | v1 =>
    obtain ⟨index, hi⟩ := Option.isSome_iff_exists.1 hm
    show Variant.writeByIndex methods m = Variant.writeByIndex former m
    rw [Variant.writeByIndex, Variant.writeByIndex, hi, h.index? hi]

namespace EventCodec

variable {c : EventCodec} {v : WireVersion} {w : Workspace}

/-! ### Decoding -/

/-- A head that could be read is read as before. -/
theorem decodeHead_of_extends (h : methods.Extends c.methods) {body rest : Bytes}
    {head : String × Method} (hhead : (c.decodeHead v.variant).run body = (.ok head, rest)) :
    (decodeHead { c with methods } v.variant).run body = (.ok head, rest) := by
  obtain ⟨word, hword, name, called, rfl, hname, hm⟩ := (decodeHead_reads _ _ _).1 hhead
  exact (decodeHead_reads _ _ _).2 ⟨_, hword, name, called, rfl, hname, hm.of_extends h⟩

/-- A frame that could be read is read as before, with the same look-ups and reports. -/
theorem decode_of_extends (h : methods.Extends c.methods) {tag : UInt8} {body : Bytes}
    {e : CommandEvent AnyValue} (hv : (c.variantFor tag).1 = .ok v.variant)
    (he : (c.decode (tag :: body) w).1 = .ok e) :
    decode { c with methods } (tag :: body) w = c.decode (tag :: body) w := by
  have hv' : (variantFor { c with methods } tag).1 = .ok v.variant := hv
  rw [decode_of_variantFor hv, decode_of_variantFor hv']
  cases hhead : (c.decodeHead v.variant).run body with
  | mk result rest =>
    cases result with
    | error failure =>
      rw [decode_of_head_error hv (congrArg Prod.fst hhead)] at he
      cases he
    | ok head =>
      rw [decodeHead_of_extends h hhead]
      rfl

/-! ### Encoding -/

theorem encodeHead_of_extends (h : methods.Extends c.methods) {m : Method}
    (hm : (c.methods.index? m).isSome) (tag : UInt8) (application : String) :
    encodeHead { c with methods } v.variant tag application m =
      c.encodeHead v.variant tag application m := by
  rw [encodeHead, encodeHead]
  dsimp only
  rw [writeMethod_of_extends h v hm]

section Encoding

variable {ν : Type}
  (encode : AnyCodec → ν → Workspace → Except CodecError (Option Bytes) × Workspace)

/-- What is known about methods does not matter to the blocks. -/
theorem encodeArguments_with_methods (index : Nat) (pairs : List (Parameter × Option ν))
    (written : Bytes) (w : Workspace) :
    encodeArguments { c with methods } encode index pairs written w =
      c.encodeArguments encode index pairs written w := by
  induction pairs generalizing index written w with
  | nil => rfl
  | cons pair pairs ih =>
    obtain ⟨p, argument⟩ := pair
    cases argument with
    | none => simp only [encodeArguments, ih]
    | some value => simp only [encodeArguments, ih]

/-- An event with a known method is written as before, or refused as before. -/
theorem encodeBy_of_extends (h : methods.Extends c.methods)
    (hv : ∀ tag variant, c.variants.get? tag = some variant → ∃ v : WireVersion, variant = v.variant)
    {e : CommandEvent ν} (hm : (c.methods.index? e.method).isSome) :
    encodeBy { c with methods } encode e w = c.encodeBy encode e w := by
  rw [encodeBy, encodeBy]
  dsimp only
  cases hvariant : c.variants.get? (e.version.getD c.config.version.tag) with
  | none => rfl
  | some variant =>
    obtain ⟨v, rfl⟩ := hv _ variant hvariant
    simp only [encodeHead_of_extends h hm, encodeArguments_with_methods]

end Encoding

theorem exists_version_of_get? (methods : MethodDirectory) {tag : UInt8} {variant : Variant}
    (h : (EventCodec.new methods).variants.get? tag = some variant) :
    ∃ v : WireVersion, variant = v.variant := by
  rw [get?_variants_new] at h
  obtain ⟨v, -, rfl⟩ := Option.map_eq_some_iff.1 h
  exact ⟨v, rfl⟩

/-- **Old frames stay readable.** Let a table grow by any insertions, accepted or refused. Whatever
the former table found by index or by signature, the later one finds; a method of a signature that
was known has the index that it had, or still none; a frame that was decoded is decoded to the same
event; and an event with a method that was indexed is encoded as before or refused as before. -/
theorem wire_unchanged_insertAll (former : MethodTable) (later : List Method)
    (config : EventConfig) :
    let t := former.insertAll later
    let c := { EventCodec.new former.directory with config }
    let c' := { c with methods := t.directory }
    (∀ index m, former.get? index = some m → t.get? index = some m) ∧
    (∀ m index, former.index? m = some index → t.index? m = some index) ∧
    (∀ interface name types m, former.bySignature interface name types = some m →
      t.bySignature interface name types = some m) ∧
    (∀ m, (former.bySignature m.interface m.name m.wireTypes).isSome →
      t.index? m = former.index? m) ∧
    (∀ frame w e, (c.decode frame w).1 = .ok e → c'.decode frame w = c.decode frame w) ∧
    (∀ e w, (former.index? e.method).isSome → c'.encode e w = c.encode e w) ∧
    ∀ e w, (former.index? e.method).isSome → c'.encodeShared e w = c.encodeShared e w := by
  intro t c c'
  have htable : t.Extends former := former.insertAll_extends later
  have hdirectory : t.directory.Extends c.methods := htable.directory
  have hv : ∀ tag variant, c.variants.get? tag = some variant →
      ∃ v : WireVersion, variant = v.variant := fun _ _ =>
    exists_version_of_get? former.directory
  refine ⟨fun _ _ => htable.get?, fun _ _ => hdirectory.index?, fun _ _ _ _ => htable.bySignature,
    fun _ => htable.index?_eq, ?_, ?_, ?_⟩
  · intro frame w e he
    obtain ⟨tag, body, variant, rfl, hvariant⟩ := variantFor_of_decode_eq_ok he
    obtain ⟨v, -, rfl⟩ := variantFor_eq_ok_iff.1 hvariant
    exact decode_of_extends hdirectory hvariant he
  · intro e w hm
    exact encodeBy_of_extends Workspace.encode hdirectory hv hm
  · intro e w hm
    exact encodeBy_of_extends Workspace.encodeShared hdirectory hv hm

end EventCodec

end CommandWire
