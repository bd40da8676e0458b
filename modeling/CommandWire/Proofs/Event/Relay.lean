import CommandWire.Proofs.Event.RoundTrip
import CommandWire.Proofs.Method.Lookup
import CommandWire.Proofs.Registry.Builtin

/-!
# Relayed events

Whoever relays an event decodes a frame and encodes the event again. The frame need not be one that
a sender writes: the reader takes the full name of an interface where the writer puts its last
segment, unknown versions, other bytes for the truth values, blanks between the tokens of a text.
What has been read of all this can be written (`encode_cases_of_isBody`), and what is written is
read as the same event (`decode_encode_of_isBody`):

    method   : exists_writeMethod
    argument : AnyCodec.Relays

All that `encode_of_decode` needs to know of the codecs is that each of them relays, which the
built-in ones do, and so do the fallbacks of types without doubles. What remains is the length of a
block: what has been read from a short text may need a longer one.
-/

namespace CommandWire

/-! ### Methods -/

/-- The simple name of an interface can be written where the full name has been read. -/
theorem IsName.exists_lastSegment {word : Bytes} {text : String} (h : IsName word text) :
    ∃ simple, IsName simple (lastSegment text) := by
  obtain ⟨ascii, short, -⟩ := isName_iff.1 h
  obtain ⟨front, hfront⟩ := lastSegment_suffix text
  have htext : Bytes.ofText text =
      Bytes.ofText (.ofList front) ++ Bytes.ofText (lastSegment text) := by
    have hsegment := Bytes.ofText_ofList (lastSegment text).toList
    have hall := Bytes.ofText_ofList text.toList
    rw [String.ofList_toList] at hsegment hall
    rw [hall, ← hfront, List.flatMap_append, Bytes.ofText_ofList, hsegment]
  rw [htext, Bytes.isAscii, List.all_append, Bool.and_eq_true] at ascii
  rw [htext, List.length_append] at short
  exact ⟨_, isName_iff.2 ⟨ascii.2, by omega, rfl⟩⟩

/-- A method that has been read has an index, and its variant can write it. -/
theorem exists_writeMethod {t : MethodTable} (ht : t.Valid) {v : WireVersion} {word : Bytes}
    {m : Method} (h : IsMethod t.directory v word m) (written : Bytes) :
    (t.index? m).isSome ∧
      ∃ out, (v.variant.writeMethod t.directory m).run written = (.ok (), out) := by
  cases h with
  | byName hi hn short hps hm =>
    obtain ⟨i, hget, hs⟩ := (MethodTable.bySignature_eq_some_iff ht).1 hm
    -- What has been read is the signature, where only the interface may be longer.
    obtain ⟨hinterface, rfl, rfl⟩ := Signature.mk.inj hs
    obtain ⟨simple, hsimple⟩ := hi.exists_lastSegment
    rw [← hinterface] at hsimple
    have hindex := (MethodTable.index?_eq_some_iff ht).2
      ⟨i, hget, Nat.lt_of_lt_of_le (Array.getElem?_eq_some_iff.1 hget).1 ht.size_le, rfl⟩
    exact ⟨Option.isSome_of_eq_some hindex, _,
      (Variant.writeByName_writes t.directory m written () _).2
        ⟨_, rfl, simple, _, _, hsimple, hn, short, hps, rfl⟩⟩
  | @byIndex index _ hm =>
    have hindex :=
      (MethodTable.index?_eq_some_iff_position ht).2 (MethodTable.get?_eq_some_iff.1 hm)
    refine ⟨Option.isSome_of_eq_some hindex, written ++ shortBytes index, ?_⟩
    show (Variant.writeByIndex t.directory m).run written = _
    rw [Variant.writeByIndex, show t.directory.index? m = _ from hindex]
    rfl

/-! ### Arguments -/

/-- What stands in an event that has been read has been decoded. -/
theorem AreArguments.exists_decode {codecFor : ValueType → AnyCodec} {parameters : List Parameter}
    {word : Bytes} {arguments : List (Option AnyValue)}
    (h : AreArguments codecFor parameters word arguments) (p : Parameter) (value : AnyValue)
    (hmem : (p, some value) ∈ parameters.zip arguments) :
    ∃ bytes, (codecFor p.type).decode (some bytes) = .ok (.value value) := by
  induction h with
  | nil => cases hmem
  | cons hargument _ ih =>
    rw [List.zip_cons_cons, List.mem_cons] at hmem
    obtain heq | hmem := hmem
    · cases heq
      cases hargument with
      | value _ hdecode => exact ⟨_, hdecode⟩
    · exact ih hmem

namespace EventCodec

/-- Of some bytes only the length can be refused. -/
theorem block_cases (index : Nat) {bytes : Bytes} (h : bytes ≠ []) (limit : UInt8)
    (written : Bytes) :
    (∃ out, (FrameWrite.block index (some bytes) limit).run written = (.ok (), out)) ∨
      ∃ length limit' out, (FrameWrite.block index (some bytes) limit).run written =
        (.error (.argumentTooLarge index length limit'), out) := by
  rw [FrameWrite.block, if_neg (by simpa using h)]
  split
  next => exact .inr ⟨_, _, _, rfl⟩
  next => exact .inl ⟨_, rfl⟩

/-- By induction on the arguments: where each of them is encoded as some bytes, only the length of
one can be refused. -/
theorem encodeArguments_cases (c : EventCodec) {pairs : List (Parameter × Option AnyValue)}
    {w : Workspace}
    (h : ∀ p value, (p, some value) ∈ pairs → ∃ bytes, bytes ≠ [] ∧
      (w.registry.codecFor p.type).encode (some value) = .ok (some bytes))
    (index : Nat) (written : Bytes) :
    (∃ out after, c.encodeArguments Workspace.encode index pairs written w = (.ok out, after)) ∨
      ∃ index' length limit after, c.encodeArguments Workspace.encode index pairs written w =
        (.error (.argumentTooLarge index' length limit), after) := by
  induction pairs generalizing index written w with
  | nil => exact .inl ⟨_, _, rfl⟩
  | cons pair pairs ih =>
    obtain ⟨p, argument⟩ := pair
    have hrest := fun q value hq => h q value (List.mem_cons_of_mem _ hq)
    cases argument with
    | none => exact ih hrest (index + 1) _
    | some value =>
      obtain ⟨bytes, hsome, hencode⟩ := h p value List.mem_cons_self
      have hc : (w.lookup p.type).1 = w.registry.codecFor p.type := w.codec_lookup p.type
      have hr : (w.lookup p.type).2.registry.codecFor = w.registry.codecFor :=
        w.codecFor_lookup p.type
      rw [encodeArguments]
      simp only [Workspace.encode, hc, hencode]
      obtain ⟨out, hblock⟩ | ⟨length, limit, out, hblock⟩ :=
        block_cases index hsome c.config.maxArgumentLength written
      · rw [hblock]
        exact ih (by simpa only [hr] using hrest) (index + 1) out
      · rw [hblock]
        exact .inr ⟨_, _, _, _, rfl⟩

/-- The head of an event that has been read can be written. -/
theorem exists_encodeHead {c : EventCodec} {t : MethodTable} (ht : t.Valid)
    (hc : c.methods = t.directory) {v : WireVersion} {name called : Bytes} {application : String}
    {m : Method} (hname : IsName name application) (hm : IsMethod t.directory v called m)
    (tag : UInt8) :
    ∃ out, (c.encodeHead v.variant tag application m).run [] = (.ok (), out) := by
  obtain ⟨-, out, hwrite⟩ := exists_writeMethod ht hm ([tag] ++ name)
  rw [encodeHead, hc]
  refine ⟨out, run_bind_eq_ok_iff.2 ⟨(), [tag], rfl, run_bind_eq_ok_iff.2 ⟨(), _, ?_, hwrite⟩⟩⟩
  exact (FrameWrite.name_writes _ application _ _ _).2 ⟨name, rfl, hname⟩

section Relaying

variable {t : MethodTable} {c : EventCodec} {codecFor : ValueType → AnyCodec} {v : WireVersion}
  {body : Bytes} {e : CommandEvent AnyValue}

/-- Each argument of an event that has been read is encoded as some bytes that are decoded as it. -/
theorem exists_again (h : IsBody t.directory codecFor v body e)
    (hrelay : ∀ p ∈ e.method.parameters, (codecFor p.type).Relays) (p : Parameter)
    (value : AnyValue) (hmem : (p, some value) ∈ e.method.parameters.zip e.arguments) :
    ∃ again, again ≠ [] ∧ (codecFor p.type).encode (some value) = .ok (some again) ∧
      (codecFor p.type).decode (some again) = .ok (.value value) := by
  obtain ⟨-, -, hblocks⟩ := h
  obtain ⟨bytes, hdecode⟩ := hblocks.exists_decode p value hmem
  exact hrelay p (List.of_mem_zip hmem).1 bytes value hdecode

/-- An event that has been read is encoded, unless an argument is too long. -/
theorem encode_cases_of_isBody (ht : t.Valid) (hc : c.BuiltOver t)
    (h : IsBody t.directory codecFor v body e)
    (hrelay : ∀ p ∈ e.method.parameters, (codecFor p.type).Relays) {w : Workspace}
    (hw : w.registry.codecFor = codecFor) :
    (∃ again, (c.encode e w).1 = .ok again) ∨
      ∃ index length limit, (c.encode e w).1 = .error (.argumentTooLarge index length limit) := by
  have hencode : ∀ p value, (p, some value) ∈ e.method.parameters.zip e.arguments →
      ∃ bytes, bytes ≠ [] ∧
        (w.registry.codecFor p.type).encode (some value) = .ok (some bytes) := by
    intro p value hmem
    obtain ⟨again, hsome, hencode, -⟩ := exists_again h hrelay p value hmem
    rw [hw]
    exact ⟨again, hsome, hencode⟩
  obtain ⟨hname, hm, hblocks⟩ := h
  obtain ⟨head, hhead⟩ := exists_encodeHead ht hc.methods_eq hname hm v.tag
  rw [encode, encodeBy, Option.getD_some, hc.variants_eq]
  dsimp only
  rw [if_neg (not_not.2 hblocks.length_eq.symm), hhead]
  dsimp only
  obtain ⟨out, after, hargs⟩ | ⟨index, length, limit, after, hargs⟩ :=
    encodeArguments_cases c hencode 0 head
  · rw [hargs]
    exact .inl ⟨out, rfl⟩
  · rw [hargs]
    exact .inr ⟨index, length, limit, rfl⟩

/-- What an event that has been read is encoded as is decoded as the event. -/
theorem decode_encode_of_isBody (ht : t.Valid) (hc : c.BuiltOver t)
    (h : IsBody t.directory codecFor v body e)
    (hrelay : ∀ p ∈ e.method.parameters, (codecFor p.type).Relays) {w w' : Workspace}
    (hw : w.registry.codecFor = codecFor) (hw' : w'.registry.codecFor = codecFor)
    {frame : Bytes} (hframe : (c.encode e w).1 = .ok frame) : (c.decode frame w').1 = .ok e := by
  have hread : ∀ p value, (p, some value) ∈ e.method.parameters.zip e.arguments →
      (w.registry.codecFor p.type).CarriesTo (codecFor p.type) value := by
    intro p value hmem out hout
    obtain ⟨again, -, hencode, hdecode⟩ := exists_again h hrelay p value hmem
    rw [hw, hencode] at hout
    cases hout
    exact ⟨again, rfl, hdecode⟩
  have hversion : e.version = some v.tag := by cases h; rfl
  have hindex : (t.index? e.method).isSome := by
    obtain ⟨-, hm, -⟩ := h
    exact (exists_writeMethod ht hm []).1
  have htag : e.version.getD c.config.version.tag = v.tag := by rw [hversion, Option.getD_some]
  obtain ⟨again, rfl, hagain⟩ := isBody_of_encode ht hc htag hindex hread hframe
  rw [← hversion] at hagain
  have hv : (c.variantFor v.tag).1 = .ok v.variant := by rw [variantFor, hc.variants_eq]
  rw [decode_eq_ok_iff_isBody hv, hc.methods_eq, hw']
  exact hagain

end Relaying

/-- **Relaying normalises and never corrupts.** Where fallbacks are needed only for types without
doubles, a decoded event is encoded again, unless an argument has become too long for its block; and
the new frame is decoded to the same event. -/
theorem encode_of_decode (inserted : List Method) (config : EventConfig) (w w' w'' : Workspace)
    (hw : Registry.builtin.GrowsTo w.registry) (hw' : Registry.builtin.GrowsTo w'.registry)
    (hw'' : Registry.builtin.GrowsTo w''.registry) (frame : Bytes) (e : CommandEvent AnyValue)
    (hfallback : ∀ p ∈ e.method.parameters, Registry.builtin.find? p.type = none →
      p.type.shape.hasDouble = false)
    (h : (({ EventCodec.new (MethodTable.empty.insertAll inserted).directory with config } :
      EventCodec).decode frame w).1 = .ok e) :
    let c := { EventCodec.new (MethodTable.empty.insertAll inserted).directory with config }
    ((∃ again, (c.encode e w').1 = .ok again) ∨
      ∃ index length limit, (c.encode e w').1 = .error (.argumentTooLarge index length limit)) ∧
    ∀ again, (c.encode e w').1 = .ok again → (c.decode again w'').1 = .ok e := by
  intro c
  have ht := MethodTable.valid_insertAll MethodTable.valid_empty inserted
  have hc := builtOver_new (MethodTable.empty.insertAll inserted) config
  obtain ⟨tag, body, variant, rfl, hv⟩ := variantFor_of_decode_eq_ok h
  obtain ⟨v, -, rfl⟩ := variantFor_eq_ok_iff.1 hv
  have hrelay : ∀ p ∈ e.method.parameters, (w.registry.codecFor p.type).Relays := by
    intro p hp
    rw [hw.codecFor_eq]
    exact Registry.codecFor_builtin_relays (hfallback p hp)
  have hw' : w'.registry.codecFor = w.registry.codecFor :=
    hw'.codecFor_eq.trans hw.codecFor_eq.symm
  have hw'' : w''.registry.codecFor = w.registry.codecFor :=
    hw''.codecFor_eq.trans hw.codecFor_eq.symm
  have hbody := (decode_eq_ok_iff_isBody hv).1 h
  exact ⟨encode_cases_of_isBody ht hc hbody hrelay hw',
    fun again => decode_encode_of_isBody ht hc hbody hrelay hw' hw''⟩

/-- A method with a truth value, for which there is a codec, and a list, for which there is none. -/
def markMethod : Method :=
  ⟨"cachesync.Commands", "mark", [⟨"boolean", .of Bool⟩, ⟨"list", .of (List Int64)⟩]⟩

/-- A frame that no sender writes: its version is unknown, the full name of the interface stands in
it, five stands for false, and there are blanks in the list. -/
theorem encode_of_decode_markMethod :
    let t := MethodTable.empty.insertAll [markMethod]
    let c := { EventCodec.new t.directory with config := ⟨.v1, .lenient, 255⟩ }
    let w := Workspace.of .builtin .empty
    let name (text : String) := UInt8.ofNat (Bytes.ofText text).length :: Bytes.ofText text
    let method := name "cachesync.Commands" ++ name "mark" ++
      2 :: (name "boolean" ++ (name "list" ++ []))
    let block (bytes : Bytes) := UInt8.ofNat bytes.length :: bytes
    let arguments := block [5] ++ (block (Bytes.ofText "[ 1 ]") ++ [])
    let frame := 9 :: (name "app" ++ method ++ arguments)
    let e := ⟨"app", markMethod, [some (.of false), some (.of [(1 : Int64)])], some 0⟩
    (c.decode frame w).1 = .ok e ∧
      ((∃ again, (c.encode e w).1 = .ok again) ∨
        ∃ index length limit, (c.encode e w).1 = .error (.argumentTooLarge index length limit)) ∧
      ∀ again, (c.encode e w).1 = .ok again → (c.decode again w).1 = .ok e := by
  intro t c w name method block arguments frame e
  have isName : ∀ text, (Bytes.ofText text).isAscii → (Bytes.ofText text).length < 256 →
      IsName (name text) text := fun text ascii short => isName_iff.2 ⟨ascii, short, rfl⟩
  have hm : t.bySignature "cachesync.Commands" "mark" ["boolean", "list"] = some markMethod := by
    rw [MethodTable.bySignature_eq_some_iff
      (MethodTable.valid_insertAll MethodTable.valid_empty [markMethod])]
    refine ⟨0, ?_, rfl⟩
    simp [MethodTable.insertAll, MethodTable.empty, MethodTable.insert, MethodTable.capacity]
  have hmethod : IsMethod t.directory .default method markMethod :=
    .byName (isName _ (by decide) (by decide)) (isName _ (by decide) (by decide))
      (by decide) (.cons (isName _ (by decide) (by decide))
        (.cons (isName _ (by decide) (by decide)) .nil)) hm
  have hbool : (Registry.builtin.codecFor (.of Bool)).decode (some [5]) =
      .ok (.value (.of false)) := by
    have hcodec : Registry.builtin.codecFor (.of Bool) = Codec.bool.erased := by
      with_unfolding_all rfl
    rw [hcodec]
    rfl
  have hlist : (Registry.builtin.codecFor (.of (List Int64))).decode
      (some (Bytes.ofText "[ 1 ]")) = .ok (.value (.of [(1 : Int64)])) := by
    have hnone : Registry.builtin.find? (.of (List Int64)) = none := by
      rw [← Option.isNone_iff_eq_none]
      decide +kernel
    rw [Registry.codecFor, hnone]
    with_unfolding_all rfl
  have isBlock : ∀ bytes, bytes ≠ [] → bytes.length < 256 → IsBlock (block bytes) (some bytes) :=
    fun _ => .present
  -- Proved for all registries first, so that nothing has to be computed from the built-in one.
  have hof : ∀ r : Registry, (Workspace.of r .empty).registry = r := fun _ => rfl
  have hregistry : w.registry = .builtin := hof .builtin
  have harguments : AreArguments w.registry.codecFor markMethod.parameters arguments
      [some (.of false), some (.of [(1 : Int64)])] := by
    rw [hregistry]
    exact .cons (.value (isBlock _ (by decide) (by decide)) hbool)
      (.cons (.value (isBlock _ (by decide) (by decide)) hlist) .nil)
  have hbody : IsBody t.directory w.registry.codecFor .default frame.tail e :=
    .mk (isName "app" (by decide) (by decide)) hmethod harguments
  have h : (c.decode frame w).1 = .ok e :=
    (decode_eq_ok_iff_isFrame _ _ _ _ _).1.2 (.mk (.unknown rfl rfl) hbody)
  have hw : Registry.builtin.GrowsTo w.registry := by
    rw [hregistry]
    exact .refl
  have hfallback : ∀ p ∈ e.method.parameters, Registry.builtin.find? p.type = none →
      p.type.shape.hasDouble = false := by
    intro p hp _
    obtain _ | ⟨_, _ | ⟨_, ⟨⟩⟩⟩ := hp
    · rfl
    · rfl
  exact ⟨h, encode_of_decode [markMethod] _ w w w hw hw hw frame e hfallback h⟩

end EventCodec

end CommandWire
