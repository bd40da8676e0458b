import CommandWire.Proofs.Event.Decoding
import CommandWire.Proofs.Registry.Answers
import CommandWire.Proofs.Registry.Growth

/-!
# Answers do not depend on what was asked before

Encoding and decoding look codecs up, and so even a request that fails half-way may leave fallbacks
in the registry. No later request can tell: as long as nothing is registered, each is answered as
it would have been in the beginning (`answers_ignore_history`).

Two facts about each request carry this. It makes the registry grow by look-ups and in no other way
(`growsTo_perform`), and its answer depends on nothing but the codecs that the registry finds
(`answer_perform_congr`), which look-ups leave alone.
-/

namespace CommandWire

/-! ### Workspaces that cannot be told apart -/

/-- The workspaces find the same codecs, and their publish scopes are the same. -/
structure Workspace.Alike (w w' : Workspace) : Prop where
  codecFor_eq : w.registry.codecFor = w'.registry.codecFor
  scope_eq : w.scope = w'.scope

theorem Workspace.Alike.lookup {w w' : Workspace} (h : w.Alike w') (type : ValueType) :
    (w.lookup type).2.Alike (w'.lookup type).2 where
  codecFor_eq := by rw [w.codecFor_lookup, w'.codecFor_lookup, h.codecFor_eq]
  scope_eq := h.scope_eq

namespace EventCodec

/-! ### Encoding -/

section Encoding

variable {ν : Type} {w w' : Workspace}
  {encode : AnyCodec → ν → Workspace → Except CodecError (Option Bytes) × Workspace}

/-- A way to encode values that knows nothing of a workspace but its publish scope, and leaves the
registry alone. -/
structure SeesOnlyScope
    (encode : AnyCodec → ν → Workspace → Except CodecError (Option Bytes) × Workspace) : Prop where
  registry_eq : ∀ codec value w, (encode codec value w).2.registry = w.registry
  result_eq : ∀ codec value {w w' : Workspace}, w.scope = w'.scope →
    (encode codec value w).1 = (encode codec value w').1
  scope_eq : ∀ codec value {w w' : Workspace}, w.scope = w'.scope →
    (encode codec value w).2.scope = (encode codec value w').2.scope

theorem encode_seesOnlyScope : SeesOnlyScope Workspace.encode where
  registry_eq _ _ _ := rfl
  result_eq _ _ _ _ _ := rfl
  scope_eq _ _ _ _ h := h

theorem encodeShared_seesOnlyScope : SeesOnlyScope Workspace.encodeShared where
  registry_eq _ _ _ := rfl
  result_eq codec value _ _ h := congrArg (fun s => (s.encodeAny codec value).result) h
  scope_eq codec value _ _ h := congrArg (fun s => (s.encodeAny codec value).scope) h

/-- The same comes out, and the workspaces are alike again. -/
theorem SeesOnlyScope.exists_eq (hencode : SeesOnlyScope encode) (h : w.Alike w')
    (codec : AnyCodec) (value : ν) :
    ∃ result after after', encode codec value w = (result, after) ∧
      encode codec value w' = (result, after') ∧ after.Alike after' := by
  refine ⟨(encode codec value w).1, (encode codec value w).2, (encode codec value w').2, rfl,
    Prod.ext (hencode.result_eq codec value h.scope_eq).symm rfl, ?_, ?_⟩
  · rw [hencode.registry_eq, hencode.registry_eq, h.codecFor_eq]
  · exact hencode.scope_eq codec value h.scope_eq

/-- By induction on the arguments: each of those that are there makes one look-up. -/
theorem growsTo_encodeArguments (c : EventCodec) (hencode : SeesOnlyScope encode) (index : Nat)
    (pairs : List (Parameter × Option ν)) (out : Bytes) (w : Workspace) :
    w.registry.GrowsTo (c.encodeArguments encode index pairs out w).2.registry := by
  induction pairs generalizing index out w with
  | nil => exact .refl
  | cons pair pairs ih =>
    obtain ⟨p, argument⟩ := pair
    cases argument with
    | none =>
      rw [encodeArguments]
      split
      next => exact .refl
      next => exact ih _ _ w
    | some value =>
      rw [encodeArguments]
      dsimp only
      have hlooked : w.registry.GrowsTo
          (encode (w.lookup p.type).1 value (w.lookup p.type).2).2.registry := by
        rw [hencode.registry_eq]
        exact w.registry.growsTo_lookup p.type
      generalize encode (w.lookup p.type).1 value (w.lookup p.type).2 = encoded at hlooked
      obtain ⟨result, after⟩ := encoded
      cases result with
      | error failure => exact hlooked
      | ok payload =>
        dsimp only
        split
        next => exact hlooked
        next => exact hlooked.trans (ih _ _ after)

/-- By induction on the arguments: alike workspaces give the same for the first one, and are alike
when it comes to the others. -/
theorem encodeArguments_congr (c : EventCodec) (hencode : SeesOnlyScope encode) (index : Nat)
    (pairs : List (Parameter × Option ν)) (out : Bytes) (h : w.Alike w') :
    (c.encodeArguments encode index pairs out w).1 =
      (c.encodeArguments encode index pairs out w').1 := by
  induction pairs generalizing index out w w' with
  | nil => rfl
  | cons pair pairs ih =>
    obtain ⟨p, argument⟩ := pair
    cases argument with
    | none =>
      rw [encodeArguments, encodeArguments]
      split
      next => rfl
      next => exact ih _ _ h
    | some value =>
      obtain ⟨result, after, after', he, he', hafter⟩ :=
        hencode.exists_eq (h.lookup p.type) (w.registry.codecFor p.type) value
      rw [encodeArguments, encodeArguments]
      dsimp only
      rw [w.codec_lookup, w'.codec_lookup, ← h.codecFor_eq, he, he']
      cases result with
      | error failure => rfl
      | ok payload =>
        dsimp only
        split
        next => rfl
        next => exact ih _ _ hafter

theorem growsTo_encodeBy (c : EventCodec) (hencode : SeesOnlyScope encode) (e : CommandEvent ν)
    (w : Workspace) : w.registry.GrowsTo (c.encodeBy encode e w).2.registry := by
  rw [encodeBy]
  split
  next => exact .refl
  next =>
    split
    next => exact .refl
    next =>
      split
      next => exact .refl
      next out _ =>
        have h := c.growsTo_encodeArguments hencode 0 (e.method.parameters.zip e.arguments) out w
        split <;> next ho => rw [ho] at h; exact h

theorem encodeBy_congr (c : EventCodec) (hencode : SeesOnlyScope encode) (e : CommandEvent ν)
    (h : w.Alike w') : (c.encodeBy encode e w).1 = (c.encodeBy encode e w').1 := by
  rw [encodeBy, encodeBy]
  split
  next => rfl
  next =>
    split
    next => rfl
    next =>
      split
      next => rfl
      next out _ =>
        have h := c.encodeArguments_congr hencode 0 (e.method.parameters.zip e.arguments) out h
        generalize c.encodeArguments encode 0 (e.method.parameters.zip e.arguments) out w = encoded
          at h
        generalize c.encodeArguments encode 0 (e.method.parameters.zip e.arguments) out w' =
          encoded' at h
        obtain ⟨result, _⟩ := encoded
        obtain ⟨_, _⟩ := encoded'
        obtain rfl : result = _ := h
        cases result <;> rfl

end Encoding

/-! ### Decoding -/

section Decoding

variable {w w' : Workspace}

theorem growsTo_decodeArgument (index : Nat) (p : Parameter) (unread : Bytes) (w : Workspace) :
    w.registry.GrowsTo (decodeArgument index p unread w).2.registry := by
  have hlooked : ∀ bytes, w.registry.GrowsTo
      ((w.lookup p.type).2.decode (w.lookup p.type).1 bytes).2.registry := fun _ =>
    w.registry.growsTo_lookup p.type
  rw [decodeArgument]
  split
  next => exact .refl
  next => exact .refl
  next bytes _ _ =>
    have h := hlooked bytes
    dsimp only
    split <;> next hd => rw [hd] at h; exact h

theorem decodeArgument_congr (index : Nat) (p : Parameter) (unread : Bytes)
    (h : w.registry.codecFor = w'.registry.codecFor) :
    (decodeArgument index p unread w).1 = (decodeArgument index p unread w').1 := by
  rw [decodeArgument, decodeArgument]
  split
  next => rfl
  next => rfl
  next bytes _ _ =>
    simp only [Workspace.decode, Workspace.codec_lookup, h]
    cases (w'.registry.codecFor p.type).decode (some bytes) with
    | error failure => rfl
    | ok decoded => cases decoded <;> rfl

theorem growsTo_decodeArguments (index : Nat) (parameters : List Parameter) (unread : Bytes)
    (w : Workspace) :
    w.registry.GrowsTo (decodeArguments index parameters unread w).2.registry := by
  induction parameters generalizing index unread w with
  | nil => exact .refl
  | cons p parameters ih =>
    rw [decodeArguments]
    have hfirst := growsTo_decodeArgument index p unread w
    split
    next hd =>
      rw [hd] at hfirst
      exact hfirst
    next middle after hd =>
      rw [hd] at hfirst
      have hothers := hfirst.trans (ih (index + 1) middle after)
      split <;> next ho => rw [ho] at hothers; exact hothers

/-- What comes out of reading several arguments, by the first one and the others. -/
theorem result_decodeArguments_cons (index : Nat) (p : Parameter) (parameters : List Parameter)
    (unread : Bytes) (w : Workspace) :
    (decodeArguments index (p :: parameters) unread w).1 =
      (decodeArgument index p unread w).1.bind fun read =>
        (decodeArguments (index + 1) parameters read.2 (decodeArgument index p unread w).2).1.map
          (Prod.map (read.1 :: ·) id) := by
  rw [decodeArguments]
  split
  next hd =>
    rw [hd]
    rfl
  next hd =>
    rw [hd]
    dsimp only [Except.bind]
    split <;> next ho => rw [ho]; rfl

theorem decodeArguments_congr (index : Nat) (parameters : List Parameter) (unread : Bytes)
    (h : w.registry.codecFor = w'.registry.codecFor) :
    (decodeArguments index parameters unread w).1 =
      (decodeArguments index parameters unread w').1 := by
  induction parameters generalizing index unread w w' with
  | nil => rfl
  | cons p parameters ih =>
    have hafter : (decodeArgument index p unread w).2.registry.codecFor =
        (decodeArgument index p unread w').2.registry.codecFor := by
      rw [codecFor_decodeArgument, codecFor_decodeArgument, h]
    rw [result_decodeArguments_cons, result_decodeArguments_cons,
      decodeArgument_congr index p unread h]
    exact congrArg _ (funext fun read => congrArg _ (ih (index + 1) read.2 hafter))

theorem growsTo_decode (c : EventCodec) (frame : Bytes) (w : Workspace) :
    w.registry.GrowsTo (c.decode frame w).2.registry := by
  rw [decode]
  split
  next => exact .refl
  next tag unread _ =>
    dsimp only
    split
    next => exact .refl
    next variant _ =>
      split
      next => exact .refl
      next application m unread _ =>
        have hargs := growsTo_decodeArguments 0 m.parameters unread
          { w with log := w.log ++ (c.variantFor tag).2 }
        split
        next ho =>
          rw [ho] at hargs
          exact hargs
        next ho =>
          rw [ho] at hargs
          split <;> exact hargs

theorem decode_congr (c : EventCodec) (frame : Bytes)
    (h : w.registry.codecFor = w'.registry.codecFor) :
    (c.decode frame w).1 = (c.decode frame w').1 := by
  rw [decode, decode]
  split
  next => rfl
  next tag unread _ =>
    dsimp only
    split
    next => rfl
    next variant _ =>
      split
      next => rfl
      next application m unread _ =>
        let reported (w : Workspace) := { w with log := w.log ++ (c.variantFor tag).2 }
        have hargs : (decodeArguments 0 m.parameters unread (reported w)).1 =
            (decodeArguments 0 m.parameters unread (reported w')).1 :=
          decodeArguments_congr 0 m.parameters unread h
        generalize decodeArguments 0 m.parameters unread (reported w) = decoded at hargs
        generalize decodeArguments 0 m.parameters unread (reported w') = decoded' at hargs
        obtain ⟨result, _⟩ := decoded
        obtain ⟨_, _⟩ := decoded'
        obtain rfl : result = _ := hargs
        cases result with
        | error failure => rfl
        | ok read =>
          dsimp only
          split <;> rfl

end Decoding

/-! ### Requests -/

/-- What can be asked of an event codec and its registry between two registrations. -/
inductive Request : Type 1 where
  | encode (event : CommandEvent AnyValue)
  /-- In a publish scope of its own. -/
  | encodeShared (event : CommandEvent (Shared AnyValue))
  | decode (frame : Bytes)
  | lookup (type : ValueType)
  | encodeValue (type : ValueType) (value : Option AnyValue)
  | encodeTyped {α : Type} [Carriable α] (value : Option α)
  | decodeValue (type : ValueType) (bytes : Option Bytes)
  | decodeTyped (α : Type) [Carriable α] (bytes : Option Bytes)

/-- What the answer to a request is. -/
def Request.Answer : Request → Type
  | encode _ | encodeShared _ => Except CodecError Bytes
  | decode _ => Except CodecError (CommandEvent AnyValue)
  | lookup _ => AnyCodec
  | encodeValue .. | encodeTyped _ => Except CodecError (Option Bytes)
  | decodeValue .. => Except CodecError (Decoded AnyValue)
  | decodeTyped α _ => Except CodecError (Decoded α)

/-- The answer to a request, and the registry after it. -/
def perform (c : EventCodec) (r : Registry) : (request : Request) → request.Answer × Registry
  | .encode e => (c.encode e (.of r .empty)).map id Workspace.registry
  | .encodeShared e => (c.encodeShared e (.of r .empty)).map id Workspace.registry
  | .decode frame => (c.decode frame (.of r .empty)).map id Workspace.registry
  | .lookup type => ((r.lookup type).result.codec, (r.lookup type).registry)
  | .encodeValue type value => ((r.encode type value).result, (r.encode type value).registry)
  | @Request.encodeTyped _ _ value => ((r.encodeTyped value).result, (r.encodeTyped value).registry)
  | .decodeValue type bytes => ((r.decode type bytes).result, (r.decode type bytes).registry)
  | @Request.decodeTyped α _ bytes =>
    ((r.decodeTyped α bytes).result, (r.decodeTyped α bytes).registry)

/-- The registry after some requests, whether they succeeded or failed. -/
def run (c : EventCodec) (r : Registry) (requests : List Request) : Registry :=
  requests.foldl (fun r request => (c.perform r request).2) r

/-- A request looks codecs up, and does nothing else to the registry. -/
theorem growsTo_perform (c : EventCodec) (r : Registry) (request : Request) :
    r.GrowsTo (c.perform r request).2 := by
  cases request with
  | encode e => exact c.growsTo_encodeBy encode_seesOnlyScope e (.of r .empty)
  | encodeShared e => exact c.growsTo_encodeBy encodeShared_seesOnlyScope e (.of r .empty)
  | decode frame => exact c.growsTo_decode frame (.of r .empty)
  | lookup type => exact r.growsTo_lookup type
  | encodeValue type value => exact r.growsTo_lookup type
  | encodeTyped value => exact r.growsTo_lookup _
  | decodeValue type bytes => exact r.growsTo_lookup type
  | decodeTyped α bytes => exact r.growsTo_lookup _

/-- By induction on the requests: those that follow the first one are put to a larger registry. -/
theorem growsTo_run (c : EventCodec) (r : Registry) (requests : List Request) :
    r.GrowsTo (c.run r requests) := by
  induction requests generalizing r with
  | nil => exact .refl
  | cons request others ih => exact (c.growsTo_perform r request).trans (ih _)

/-- The answer to a request depends on the codecs that the registry finds, and not on where it has
them from. -/
theorem answer_perform_congr (c : EventCodec) {r s : Registry} (h : r.codecFor = s.codecFor)
    (request : Request) : (c.perform r request).1 = (c.perform s request).1 := by
  have halike : (Workspace.of r .empty).Alike (.of s .empty) := ⟨h, rfl⟩
  have hcodec : ∀ type, (r.lookup type).result.codec = (s.lookup type).result.codec := by
    intro type
    rw [r.codec_lookup, s.codec_lookup, h]
  cases request with
  | encode e => exact c.encodeBy_congr encode_seesOnlyScope e halike
  | encodeShared e => exact c.encodeBy_congr encodeShared_seesOnlyScope e halike
  | decode frame => exact c.decode_congr frame h
  | lookup type => exact hcodec type
  | encodeValue type value => exact congrArg (·.encode value) (hcodec type)
  | encodeTyped value => exact congrArg (·.encode (value.map AnyValue.of)) (hcodec _)
  | decodeValue type bytes => exact congrArg (·.decode bytes) (hcodec type)
  | decodeTyped α bytes =>
    rw [perform, perform, Registry.result_decodeTyped, Registry.result_decodeTyped, hcodec]

/-- **Answers do not depend on history.** Whatever an event codec and its registry have been asked
since the last registration, and whichever of it has failed, each request is answered as it would
have been at once. All that has happened to the registry is that fallbacks were added at its end, at
most one for each type, and none for a type that had an entry. -/
theorem answers_ignore_history (c : EventCodec) (r : Registry) (earlier : List Request) :
    (∀ request, (c.perform (c.run r earlier) request).1 = (c.perform r request).1) ∧
    ∃ cached : List Registry.Entry, (c.run r earlier).entries = r.entries ++ cached ∧
      (cached.map Registry.Entry.type).Nodup ∧
      ∀ entry ∈ cached, r.find? entry.type = none ∧ entry.codec = entry.type.fallback := by
  have hgrown := c.growsTo_run r earlier
  exact ⟨c.answer_perform_congr hgrown.codecFor_eq, hgrown.exists_cached⟩

end EventCodec

end CommandWire
