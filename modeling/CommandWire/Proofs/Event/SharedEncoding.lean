import CommandWire.Event.Codec
import CommandWire.Proofs.PublishScope.Transparency
import CommandWire.Proofs.Registry.Lookup

/-!
# Encoding with and without a publish scope

An event may be encoded with a publish scope or without, and the outcome is the same: the same frame
or the same failure, the same registry, and the same reports (`encodeShared_eq_encode`). So nothing
that a receiver or an operator sees tells whether values have been encoded only once.

The two encoders run in step. Between two arguments they have the same registry and the same log,
and the scope is sound for what the callers hold (`InStep`); that is enough for the next argument to
come out the same. Soundness is also kept, whatever the outcome, and so it holds for every scope
that some publishing has led to.
-/

namespace CommandWire

/-! ### Two workspaces side by side -/

/-- The one workspace has a sound scope, and apart from scopes the two have the same. -/
structure InStep (codecs : ScopeCodec → Prop) (s : Session) (shared plain : Workspace) : Prop where
  registry_eq : shared.registry = plain.registry
  log_eq : shared.log = plain.log
  sound : Session.Sound codecs { s with scope := shared.scope }

/-- The same has come out, and the workspaces are in step again. -/
structure SameOutcome {α : Type} (codecs : ScopeCodec → Prop) (s : Session)
    (shared plain : Except CodecError α × Workspace) : Prop where
  result_eq : shared.1 = plain.1
  inStep : InStep codecs s shared.2 plain.2

theorem SameOutcome.exists_eq {α : Type} {codecs : ScopeCodec → Prop} {s : Session}
    {shared plain : Except CodecError α × Workspace} (h : SameOutcome codecs s shared plain) :
    ∃ result shared' plain', shared = (result, shared') ∧ plain = (result, plain') ∧
      InStep codecs s shared' plain' :=
  ⟨shared.1, shared.2, plain.2, rfl, Prod.ext h.result_eq.symm rfl, h.inStep⟩

section steps

variable {codecs : ScopeCodec → Prop} {s : Session} {shared plain : Workspace}

theorem InStep.lookup (h : InStep codecs s shared plain) (type : ValueType) :
    InStep codecs s (shared.lookup type).2 (plain.lookup type).2 where
  registry_eq := by rw [Workspace.lookup, Workspace.lookup, h.registry_eq]
  log_eq := by rw [Workspace.lookup, Workspace.lookup, h.registry_eq, h.log_eq]
  sound := h.sound

/-- Both encode a value alike, be there an entry for it or not. -/
theorem InStep.encode (halike : ScopeCodec.EncodeAlike codecs) (h : InStep codecs s shared plain)
    {codec : AnyCodec} (hcodec : codecs (.any codec)) {value : Shared AnyValue}
    (hvalue : value ∈ s.values) :
    SameOutcome codecs s (shared.encodeShared codec value) (plain.encode codec value.value) where
  result_eq := h.sound.result_encodeAny halike hcodec hvalue
  inStep :=
    { registry_eq := h.registry_eq
      log_eq := h.log_eq
      sound := h.sound.encodeOnce hcodec hvalue (.any codec value.value) }

/-- The arguments of an event can be encoded in a session: callers hold them, and the codecs that
are asked are among those of the session. -/
structure CanEncode (codecs : ScopeCodec → Prop) (s : Session) (codecFor : ValueType → AnyCodec)
    (arguments : List (Parameter × Option (Shared AnyValue))) : Prop where
  held : ∀ p value, (p, some value) ∈ arguments → value ∈ s.values
  asked : ∀ p value, (p, some value) ∈ arguments → codecs (.any (codecFor p.type))

theorem CanEncode.tail {codecFor : ValueType → AnyCodec}
    {argument : Parameter × Option (Shared AnyValue)}
    {others : List (Parameter × Option (Shared AnyValue))}
    (h : CanEncode codecs s codecFor (argument :: others)) :
    CanEncode codecs s codecFor others where
  held p value hp := h.held p value (List.mem_cons_of_mem _ hp)
  asked p value hp := h.asked p value (List.mem_cons_of_mem _ hp)

/-- By induction on the arguments: workspaces in step stay so from each argument to the next. -/
theorem InStep.encodeArguments (halike : ScopeCodec.EncodeAlike codecs) (c : EventCodec)
    {arguments : List (Parameter × Option (Shared AnyValue))} (index : Nat) (out : Bytes)
    (h : InStep codecs s shared plain)
    (hcan : CanEncode codecs s shared.registry.codecFor arguments) :
    SameOutcome codecs s
      (c.encodeArguments Workspace.encodeShared index arguments out shared)
      (c.encodeArguments Workspace.encode index
        (arguments.map (Prod.map id (Option.map Shared.value))) out plain) := by
  induction arguments generalizing index out shared plain with
  | nil => exact ⟨rfl, h⟩
  | cons argument others ih =>
    obtain ⟨p, value⟩ := argument
    cases value with
    | none =>
      rw [List.map_cons, Prod.map_apply, Option.map_none, EventCodec.encodeArguments,
        EventCodec.encodeArguments]
      split
      next => exact ⟨rfl, h⟩
      next => exact ih _ _ h hcan.tail
    | some value =>
      rw [List.map_cons, Prod.map_apply, Option.map_some, EventCodec.encodeArguments,
        EventCodec.encodeArguments]
      dsimp only [id]
      rw [shared.codec_lookup, plain.codec_lookup, ← h.registry_eq]
      have hothers : CanEncode codecs s (Workspace.encodeShared (shared.registry.codecFor p.type)
          value (shared.lookup p.type).2).2.registry.codecFor others := by
        show CanEncode codecs s (shared.lookup p.type).2.registry.codecFor others
        rw [shared.codecFor_lookup]
        exact hcan.tail
      obtain ⟨result, shared', plain', hshared, hplain, hstep⟩ :=
        ((h.lookup p.type).encode halike (hcan.asked p value List.mem_cons_self)
          (hcan.held p value List.mem_cons_self)).exists_eq
      rw [hshared] at hothers ⊢
      rw [hplain]
      cases result with
      | error failure => exact ⟨rfl, hstep⟩
      | ok payload =>
        dsimp only
        split
        next => exact ⟨rfl, hstep⟩
        next => exact ih _ _ hstep hothers

theorem InStep.encodeEvent (halike : ScopeCodec.EncodeAlike codecs) (c : EventCodec)
    {e : CommandEvent (Shared AnyValue)} (h : InStep codecs s shared plain)
    (hcan : CanEncode codecs s shared.registry.codecFor
      (e.method.parameters.zip e.arguments)) :
    SameOutcome codecs s (c.encodeShared e shared) (c.encode (e.map Shared.value) plain) := by
  rw [EventCodec.encodeShared, EventCodec.encode, EventCodec.encodeBy, EventCodec.encodeBy]
  simp only [CommandEvent.map, List.length_map, List.zip_map_right]
  split
  next => exact ⟨rfl, h⟩
  next =>
    split
    next => exact ⟨rfl, h⟩
    next =>
      split
      next => exact ⟨rfl, h⟩
      next out _ =>
        obtain ⟨result, shared', plain', hshared, hplain, hstep⟩ :=
          (h.encodeArguments halike c 0 out hcan).exists_eq
        rw [hshared, hplain]
        cases result <;> exact ⟨rfl, hstep⟩

end steps

/-! ### Sessions with publishing -/

namespace Session

/-- The sessions that steps and earlier publishings lead to. In between the registry may change in
any way, so every publishing has its own. -/
inductive Publishing (codecs : ScopeCodec → Prop) : Session → Prop
  | start : Publishing codecs start
  | step {s s' : Session} : Publishing codecs s → Step codecs s s' → Publishing codecs s'
  | publish {s : Session} {c : EventCodec} {registry : Registry}
      {e : CommandEvent (Shared AnyValue)} : Publishing codecs s →
      CanEncode codecs s registry.codecFor (e.method.parameters.zip e.arguments) →
      Publishing codecs { s with scope := (c.encodeShared e (.of registry s.scope)).2.scope }

/-- In a sound session the two workspaces are in step to begin with. -/
theorem Sound.inStep {codecs : ScopeCodec → Prop} {s : Session} (hs : s.Sound codecs)
    (registry : Registry) (scope : PublishScope) :
    InStep codecs s (.of registry s.scope) (.of registry scope) :=
  ⟨rfl, rfl, hs⟩

theorem Publishing.sound {codecs : ScopeCodec → Prop} {s : Session}
    (halike : ScopeCodec.EncodeAlike codecs) (h : Publishing codecs s) : s.Sound codecs := by
  induction h with
  | start => exact sound_start codecs
  | step _ hstep ih => exact ih.step hstep
  | @publish s c registry e _ hcan ih =>
    exact ((ih.inStep registry s.scope).encodeEvent halike c hcan).inStep.sound

end Session

namespace EventCodec

/-- **The publish scope cannot be noticed.** After any session, encoding an event with the publish
scope gives the same frame or failure as encoding it without, and leaves the same registry and the
same reports. -/
theorem encodeShared_eq_encode {codecs : ScopeCodec → Prop}
    (halike : ScopeCodec.EncodeAlike codecs) {s : Session} (hs : s.Publishing codecs)
    (c : EventCodec) (registry : Registry) (e : CommandEvent (Shared AnyValue))
    (hcan : CanEncode codecs s registry.codecFor (e.method.parameters.zip e.arguments))
    (scope : PublishScope) :
    let shared := c.encodeShared e (.of registry s.scope)
    let plain := c.encode (e.map Shared.value) (.of registry scope)
    shared.1 = plain.1 ∧ shared.2.registry = plain.2.registry ∧ shared.2.log = plain.2.log := by
  obtain ⟨hresult, hstep⟩ := ((hs.sound halike).inStep registry scope).encodeEvent halike c hcan
  exact ⟨hresult, hstep.registry_eq, hstep.log_eq⟩

/-- An event where one shared number fills two parameters. -/
def sharedEvent : CommandEvent (Shared AnyValue) where
  application := "app"
  method := ⟨"cachesync.Commands", "move", [⟨"long", .of Int64⟩, ⟨"long", .of Int64⟩]⟩
  arguments := [some ⟨7, .of (1 : Int64)⟩, some ⟨7, .of (1 : Int64)⟩]
  version := none

/-- The event has been published before, so this time the codec is not asked at all. -/
theorem encodeShared_eq_encode_sharedEvent :
    ∃ s : Session, s.Publishing (ScopeCodec.OfCodec Codec.long) ∧
      let registry := (Registry.empty.registerTyped Codec.long).registry
      let c := EventCodec.new (.ofIndices [])
      let shared := c.encodeShared sharedEvent (.of registry s.scope)
      shared.2.calls = [] ∧
        shared.1 = (c.encode (sharedEvent.map Shared.value) (.of registry .empty)).1 := by
  let registry := (Registry.empty.registerTyped Codec.long).registry
  have hcan : ∀ {s : Session}, ⟨7, .of (1 : Int64)⟩ ∈ s.values →
      CanEncode (ScopeCodec.OfCodec Codec.long) s registry.codecFor
        (sharedEvent.method.parameters.zip sharedEvent.arguments) := by
    intro s hvalue
    constructor
    · rintro p _ (_ | ⟨_, _ | ⟨_, ⟨⟩⟩⟩) <;> exact hvalue
    · rintro p _ (_ | ⟨_, _ | ⟨_, ⟨⟩⟩⟩) <;> exact .inr rfl
  have created : Session.Publishing (ScopeCodec.OfCodec Codec.long) _ :=
    Session.Publishing.start.step
      (.create ⟨7, .of (1 : Int64)⟩ fun v h => absurd h (Session.not_holds_start v))
  have hs := created.publish (c := .new (.ofIndices [])) (hcan List.mem_cons_self)
  exact ⟨_, hs, rfl, (encodeShared_eq_encode (ScopeCodec.encodeAlike_ofCodec Codec.long) hs _
    registry sharedEvent (hcan List.mem_cons_self) .empty).1⟩

end EventCodec

end CommandWire
