import CommandWire.Proofs.Event.Decoding
import CommandWire.Proofs.Frame.Outcome

/-!
# What comes of encoding

Whether an event is encoded can be said from the event, what is known about methods, the settings,
and the codecs that the registry has; so can the frame, and if there is none, the reason. In the
order of the frame each part has its faults and its word:

    application : nameFault?     nameWord
    method      : methodFault?   methodWord
    argument    : argumentFault? argumentWord

The first fault of all is the one that is reported, and without a fault the frame consists of the
words (`encode_eq_fault_or_frame`).
-/

namespace CommandWire

/-! ### Methods -/

/-- Why a method cannot be written in a version. By names the count of the parameters is checked
before their types. -/
def methodFault? (methods : MethodDirectory) (m : Method) : WireVersion → Option CodecError
  | .default =>
    (nameFault? "interface" m.wireInterface).or <|
    (nameFault? "method" m.name).or <|
    (if 255 < m.parameters.length then some (.tooManyParameters m.text m.parameters.length)
      else none).or <|
    m.wireTypes.findSome? (nameFault? "parameter type")
  | .v1 => if (methods.index? m).isNone then some (.unindexedMethod m.text) else none

/-- What a method without a fault is written as. -/
def methodWord (methods : MethodDirectory) (m : Method) : WireVersion → Bytes
  | .default =>
    nameWord m.wireInterface ++ (nameWord m.name ++
      .ofNat m.parameters.length :: m.wireTypes.flatMap nameWord)
  | .v1 => ((methods.index? m).map shortBytes).getD []

namespace Variant

open FrameWrite

theorem writeParameters_comesTo (parameters : List Parameter) :
    (writeParameters parameters).ComesTo
      ((parameters.map (·.wireType)).findSome? (nameFault? "parameter type"))
      ((parameters.map (·.wireType)).flatMap nameWord) := by
  induction parameters with
  | nil => exact .pure
  | cons p parameters ih =>
    have hfirst : ((p :: parameters).map (·.wireType)).findSome? (nameFault? "parameter type") =
        (nameFault? "parameter type" p.wireType).or
          ((parameters.map (·.wireType)).findSome? (nameFault? "parameter type")) := by
      rw [List.map_cons, List.findSome?_cons]
      cases nameFault? "parameter type" p.wireType <;> rfl
    rw [hfirst]
    exact (name_comesTo "parameter type" p.wireType).bind ih

theorem writeByName_comesTo (methods : MethodDirectory) (m : Method) :
    (writeByName methods m).ComesTo (methodFault? methods m .default)
      (methodWord methods m .default) := by
  rw [writeByName, methodFault?, methodWord]
  refine (name_comesTo _ _).bind ((name_comesTo _ _).bind ?_)
  have hparameters := writeParameters_comesTo m.parameters
  by_cases long : 255 < m.parameters.length
  · rw [if_pos long, if_pos long]
    -- What would be written after the refusal does not matter, as there is a fault.
    exact (attempt_comesTo (some _) []).bind ((raw_comesTo _).bind hparameters)
  · rw [if_neg long, if_neg long]
    exact (raw_comesTo _).bind hparameters

theorem writeByIndex_comesTo (methods : MethodDirectory) (m : Method) :
    (writeByIndex methods m).ComesTo (methodFault? methods m .v1) (methodWord methods m .v1) := by
  rw [writeByIndex, methodFault?, methodWord]
  cases methods.index? m with
  | some index => exact raw_comesTo _
  | none => exact attempt_comesTo (some _) []

theorem writeMethod_comesTo (methods : MethodDirectory) (m : Method) (v : WireVersion) :
    (v.variant.writeMethod methods m).ComesTo (methodFault? methods m v)
      (methodWord methods m v) := by
  cases v with
  | default => exact writeByName_comesTo methods m
  | v1 => exact writeByIndex_comesTo methods m

end Variant

/-! ### Arguments -/

/-- What the block of an argument is to hold: nothing if the argument is missing, and otherwise what
the codec for the type of its parameter answers. -/
def argumentPayload (codecFor : ValueType → AnyCodec) :
    Parameter × Option AnyValue → Except CodecError (Option Bytes)
  | (_, none) => .ok none
  | (p, some value) => (codecFor p.type).encode (some value)

/-- Why the argument at a position cannot be written: the codec fails, or the block is refused. -/
def argumentFault? (codecFor : ValueType → AnyCodec) (limit : UInt8)
    (argument : (Parameter × Option AnyValue) × Nat) : Option CodecError :=
  match argumentPayload codecFor argument.1 with
  | .error failure => some failure
  | .ok payload => blockFault? argument.2 payload limit

/-- What an argument without a fault is written as. -/
def argumentWord (codecFor : ValueType → AnyCodec) (argument : Parameter × Option AnyValue) :
    Bytes :=
  match argumentPayload codecFor argument with
  | .error _ => []
  | .ok payload => blockWord payload

namespace EventCodec

/-- By induction on the arguments: the first fault ends it, and what has been written is followed by
the word of each argument. -/
theorem result_encodeArguments (c : EventCodec) {codecFor : ValueType → AnyCodec} (index : Nat)
    (pairs : List (Parameter × Option AnyValue)) (written : Bytes) {w : Workspace}
    (hw : w.registry.codecFor = codecFor) :
    (c.encodeArguments Workspace.encode index pairs written w).1 =
      ((pairs.zipIdx index).findSome? (argumentFault? codecFor c.config.maxArgumentLength)).elim
        (.ok (written ++ pairs.flatMap (argumentWord codecFor))) .error := by
  induction pairs generalizing index written w with
  | nil => simp [encodeArguments]
  | cons pair pairs ih =>
    obtain ⟨p, argument⟩ := pair
    rw [List.zipIdx_cons, List.findSome?_cons, List.flatMap_cons, ← List.append_assoc]
    cases argument with
    | none => exact ih (index + 1) (written ++ [0]) hw
    | some value =>
      have hc : (w.lookup p.type).1 = codecFor p.type := (w.codec_lookup p.type).trans (by rw [hw])
      have hlooked : (w.lookup p.type).2.registry.codecFor = codecFor :=
        (w.codecFor_lookup p.type).trans hw
      rw [encodeArguments]
      simp only [Workspace.encode, hc, argumentFault?, argumentWord, argumentPayload,
        FrameWrite.block_eq_attempt]
      cases (codecFor p.type).encode (some value) with
      | error failure => rfl
      | ok payload =>
        dsimp only
        cases blockFault? index payload c.config.maxArgumentLength with
        | some failure => rfl
        | none => exact ih (index + 1) (written ++ blockWord payload) hlooked

/-! ### Events -/

/-- Why an event cannot be encoded in a version, in the order of the checks. -/
def fault? (c : EventCodec) (codecFor : ValueType → AnyCodec) (e : CommandEvent AnyValue)
    (v : WireVersion) : Option CodecError :=
  let expected := e.method.parameters.length
  let actual := e.arguments.length
  (if expected ≠ actual then some (.argumentCount e.method.text expected actual) else none).or <|
  (nameFault? "application" e.application).or <|
  (methodFault? c.methods e.method v).or <|
  (e.method.parameters.zip e.arguments).zipIdx.findSome?
    (argumentFault? codecFor c.config.maxArgumentLength)

/-- What an event without a fault is encoded as. -/
def frame (c : EventCodec) (codecFor : ValueType → AnyCodec) (e : CommandEvent AnyValue)
    (v : WireVersion) : Bytes :=
  v.tag :: (nameWord e.application ++ methodWord c.methods e.method v) ++
    (e.method.parameters.zip e.arguments).flatMap (argumentWord codecFor)

theorem encodeHead_comesTo (c : EventCodec) (v : WireVersion) (tag : UInt8) (application : String)
    (m : Method) :
    (c.encodeHead v.variant tag application m).ComesTo
      ((nameFault? "application" application).or (methodFault? c.methods m v))
      (tag :: (nameWord application ++ methodWord c.methods m v)) :=
  (FrameWrite.raw_comesTo [tag]).bind
    ((FrameWrite.name_comesTo _ application).bind (Variant.writeMethod_comesTo c.methods m v))

/-- In a version with a variant, the checks decide. -/
theorem result_encode {c : EventCodec} {e : CommandEvent AnyValue} {v : WireVersion}
    (hv : c.variants.get? v.tag = some v.variant)
    (hversion : e.version.getD c.config.version.tag = v.tag) (w : Workspace) :
    (c.encode e w).1 =
      (c.fault? w.registry.codecFor e v).elim (.ok (c.frame w.registry.codecFor e v)) .error := by
  rw [encode, encodeBy, hversion, hv, fault?]
  dsimp only
  by_cases hcount : e.method.parameters.length = e.arguments.length
  · rw [if_neg fun h => h hcount, if_neg fun h => h hcount, Option.none_or, ← Option.or_assoc]
    have hhead := c.encodeHead_comesTo v v.tag e.application e.method
    cases hfault : (nameFault? "application" e.application).or
        (methodFault? c.methods e.method v) with
    | some failure =>
      obtain ⟨out, hout⟩ := hhead.error hfault []
      rw [hout]
      rfl
    | none =>
      rw [hhead.ok hfault, Option.none_or, frame, ← c.result_encodeArguments 0 _ _ rfl]
      dsimp only
      split <;> next hargs => exact congrArg Prod.fst hargs.symm
  · rw [if_pos hcount, if_pos hcount]
    rfl

/-- **Encoding reports the first fault or writes the frame.** With the built-in variants an event is
encoded if and only if its version is known and no check fails: the count of the arguments, the name
of the application, the method in that version, and each argument in its turn. What comes out is the
first fault, or the tag followed by the application, the method and one block for each argument. -/
theorem encode_eq_fault_or_frame (methods : MethodDirectory) (config : EventConfig)
    (e : CommandEvent AnyValue) (w : Workspace) :
    let c := { EventCodec.new methods with config }
    let tag := e.version.getD config.version.tag
    (c.encode e w).1 =
      match WireVersion.ofTag? tag with
      | none => .error (.unsupportedVersion tag)
      | some v =>
        match c.fault? w.registry.codecFor e v with
        | some failure => .error failure
        | none => .ok (c.frame w.registry.codecFor e v) := by
  intro c tag
  cases hversion : WireVersion.ofTag? tag with
  | none =>
    have hnone : c.variants.get? tag = none := by rw [get?_variants_new, hversion]; rfl
    rw [encode, encodeBy, hnone]
  | some v =>
    have htag : tag = v.tag := ofTag?_eq_some_iff.1 hversion
    have hv : c.variants.get? v.tag = some v.variant := by
      rw [get?_variants_new, ← htag, hversion]
      rfl
    rw [result_encode hv htag w]
    dsimp only
    cases c.fault? w.registry.codecFor e v <;> rfl

end EventCodec

end CommandWire
