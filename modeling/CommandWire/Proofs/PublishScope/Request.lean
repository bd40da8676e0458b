import CommandWire.Proofs.PublishScope.Entries

/-!
# Calls of a publish scope

A publish scope can be called in four ways. All of them do the same with their keys: a call finds an
answer under its key, or it asks its codec, and then it adds what it was told unless that is a
failure (`Does`, `does_perform`). It does not matter which codecs these are, what they answer, or
where values and views lie. So three equations say all about a call: which questions it puts to its
codec (`calls_perform`), what it returns (`result_perform`), and what is remembered afterwards
(`find?_perform`).
-/

namespace CommandWire.PublishScope

/-! ### Calls -/

/-- By what an answer is found again. -/
inductive Key where
  | encoded (key : EncodedKey)
  | decoded (key : DecodedKey)
deriving DecidableEq

/-- What a call returns if it succeeds. The type of a decoded value is kept in the value. -/
inductive Answer where
  | encoded (bytes : Option Bytes)
  | decoded (value : Decoded (Shared AnyValue))

/-- What a call is about, and what must stay where it is for as long as the answer is
remembered. -/
inductive Held where
  | value (value : Shared AnyValue)
  | view (view : View)

/-- What is remembered under a key. -/
structure Known where
  held : Held
  answer : Answer

/-- A call of a publish scope. That of a decoder says where a new value would be placed. -/
inductive Request : Type 1 where
  | encode {α : Type} [Carriable α] (codec : Codec α) (value : Shared α)
  | encodeAny (codec : AnyCodec) (value : Shared AnyValue)
  | decode {α : Type} [Carriable α] (codec : Codec α) (view : View) (address : Nat)
  | decodeAny (codec : AnyCodec) (view : View) (address : Nat)

namespace Request

/-- A value is known by its address and its type, bytes by the address and the length of the view on
them, and both together with the codec. -/
def key : Request → Key
  | @encode α _ codec value => .encoded ⟨value.address, .of α, codec.id⟩
  | encodeAny codec value => .encoded ⟨value.address, value.value.type, codec.id⟩
  | decode codec view _ => .decoded ⟨view.address, view.bytes.length, codec.id⟩
  | decodeAny codec view _ => .decoded ⟨view.address, view.bytes.length, codec.id⟩

def held : Request → Held
  | encode _ value => .value (value.map AnyValue.of)
  | encodeAny _ value => .value value
  | decode _ view _ => .view view
  | decodeAny _ view _ => .view view

/-- The question to the codec. -/
def question : Request → Call
  | @encode α _ codec _ => .encode codec.id (.of α)
  | encodeAny codec value => .encode codec.id value.value.type
  | decode codec .. => .decode codec.id
  | decodeAny codec .. => .decode codec.id

/-- What the codec answers to the question. -/
def computed : Request → Except CodecError Answer
  | encode codec value => (codec.encode (some value.value)).map .encoded
  | encodeAny codec value => (codec.encode (some value.value)).map .encoded
  | decode codec view address =>
    (codec.decode (some view.bytes)).map fun decoded =>
      .decoded (decoded.map fun value => ⟨address, .of value⟩)
  | decodeAny codec view address =>
    (codec.decode (some view.bytes)).map fun decoded => .decoded (decoded.map (Shared.mk address))

/-- What comes of an answer that is found. It is passed on as it is, but a decoder for one type does
not pass on a value of another one. (Only codecs that share an identity and not the type of their
values leave such a value behind.) -/
def accept : Request → Answer → Except CodecError Answer
  | @decode α _ _ _ _, .decoded (.value any) =>
    if any.value.type = .of α then .ok (.decoded (.value any))
    else .error (.typeMismatch (ValueType.of α).name)
  | _, answer => .ok answer

end Request

/-- The same with another result. -/
def Outcome.map {α β : Type} (o : Outcome α) (f : α → β) : Outcome β :=
  ⟨o.result.map f, o.scope, o.calls⟩

/-- Makes a call. -/
def perform (s : PublishScope) : Request → Outcome Answer
  | @Request.encode _ _ codec value => (s.encode codec value).map .encoded
  | .encodeAny codec value => (s.encodeAny codec value).map .encoded
  | @Request.decode _ _ codec view address =>
    (s.decode codec view address).map fun decoded => .decoded (decoded.map (·.map AnyValue.of))
  | .decodeAny codec view address => (s.decodeAny codec view address).map .decoded

/-! ### What is remembered -/

/-- What is remembered under a key, if anything is. -/
def find? (s : PublishScope) : Key → Option Known
  | .encoded key =>
    (s.encoded.find? (·.key = key)).map fun entry => ⟨.value entry.pinned, .encoded entry.bytes⟩
  | .decoded key =>
    (s.decoded.find? (·.key = key)).map fun entry => ⟨.view entry.pinned, .decoded entry.value⟩

/-- The keys of the entries. -/
def keys (s : PublishScope) : List Key :=
  s.encoded.map (fun entry => .encoded entry.key) ++ s.decoded.map (fun entry => .decoded entry.key)

theorem length_keys (s : PublishScope) : s.keys.length = s.size := by
  simp [keys, size]

theorem mem_keys_iff {s : PublishScope} {key : Key} : key ∈ s.keys ↔ (s.find? key).isSome := by
  cases key <;> simp [keys, find?, List.find?_isSome]

/-- One entry has been added. -/
structure Adds (s : PublishScope) (key : Key) (known : Known) (s' : PublishScope) : Prop where
  find?_eq : ∀ other, s'.find? other = if key = other then some known else s.find? other
  keys_perm : s'.keys.Perm (key :: s.keys)

theorem adds_encoded (s : PublishScope) (key : EncodedKey) (value : Shared AnyValue)
    (bytes : Option Bytes) :
    s.Adds (.encoded key) ⟨.value value, .encoded bytes⟩
      { s with encoded := ⟨key, value, bytes⟩ :: s.encoded } where
  find?_eq other := by
    cases other with
    | encoded other => by_cases h : key = other <;> simp [find?, h]
    | decoded other => simp [find?]
  keys_perm := .refl _

theorem adds_decoded (s : PublishScope) (key : DecodedKey) (view : View)
    (value : Decoded (Shared AnyValue)) :
    s.Adds (.decoded key) ⟨.view view, .decoded value⟩
      { s with decoded := ⟨key, view, value⟩ :: s.decoded } where
  find?_eq other := by
    cases other with
    | encoded other => simp [find?]
    | decoded other => by_cases h : key = other <;> simp [find?, h]
  keys_perm := List.perm_middle

/-! ### What a call does -/

/-- An answer is found under the key, or the codec is asked; then its answer is added, but not its
failure. -/
inductive Does (s : PublishScope) (key : Key) (held : Held) (question : Call)
    (computed : Except CodecError Answer) (accept : Answer → Except CodecError Answer) :
    Outcome Answer → Prop
  | found {known : Known} : s.find? key = some known →
      Does s key held question computed accept ⟨accept known.answer, s, []⟩
  | failed {failure : CodecError} : s.find? key = none → computed = .error failure →
      Does s key held question computed accept ⟨.error failure, s, [question]⟩
  | added {answer : Answer} {s' : PublishScope} : s.find? key = none → computed = .ok answer →
      s.Adds key ⟨held, answer⟩ s' →
      Does s key held question computed accept ⟨.ok answer, s', [question]⟩

theorem does_encodeOnce (s : PublishScope) (key : EncodedKey) (value : Shared AnyValue)
    (compute : Unit → Except CodecError (Option Bytes)) :
    s.Does (.encoded key) (.value value) (.encode key.codec value.value.type)
      ((compute ()).map .encoded) .ok ((s.encodeOnce key value compute).map .encoded) := by
  obtain ⟨entry, hfind, hout⟩ | ⟨hfind, failure, hfailure, hout⟩ | ⟨hfind, bytes, hbytes, hout⟩ :=
    s.encodeOnce_cases key value compute
  · have hknown : s.find? (.encoded key) = some ⟨.value entry.pinned, .encoded entry.bytes⟩ := by
      rw [find?, hfind]
      rfl
    rw [hout]
    exact .found hknown
  · rw [hout, hfailure]
    exact .failed (by rw [find?, hfind]; rfl) rfl
  · rw [hout, hbytes]
    exact .added (by rw [find?, hfind]; rfl) rfl (s.adds_encoded key value bytes)

theorem does_decodeOnce (s : PublishScope) (key : DecodedKey) (view : View) (address : Nat)
    (compute : Unit → Except CodecError (Decoded AnyValue)) :
    s.Does (.decoded key) (.view view) (.decode key.codec)
      ((compute ()).map fun decoded => .decoded (decoded.map (Shared.mk address))) .ok
      ((s.decodeOnce key view address compute).map .decoded) := by
  obtain ⟨entry, hfind, hout⟩ | ⟨hfind, failure, hfailure, hout⟩ | ⟨hfind, value, hvalue, hout⟩ :=
    s.decodeOnce_cases key view address compute
  · have hknown : s.find? (.decoded key) = some ⟨.view entry.pinned, .decoded entry.value⟩ := by
      rw [find?, hfind]
      rfl
    rw [hout]
    exact .found hknown
  · rw [hout, hfailure]
    exact .failed (by rw [find?, hfind]; rfl) rfl
  · rw [hout, hvalue]
    exact .added (by rw [find?, hfind]; rfl) rfl (s.adds_decoded key view _)

/-- If the codec's own answers are accepted, it is only what has been found that may be refused. -/
theorem Does.bind {s : PublishScope} {key : Key} {held : Held} {question : Call}
    {computed : Except CodecError Answer} {accept : Answer → Except CodecError Answer}
    {o : Outcome Answer} (h : s.Does key held question computed .ok o)
    (haccept : ∀ answer, computed = .ok answer → accept answer = .ok answer) :
    s.Does key held question computed accept ⟨o.result.bind accept, o.scope, o.calls⟩ := by
  cases h with
  | found hfind => exact .found hfind
  | failed hfind hfailure => exact .failed hfind hfailure
  | added hfind hanswer hadds =>
    show Does _ _ _ _ _ _ ⟨accept _, _, _⟩
    rw [haccept _ hanswer]
    exact .added hfind hanswer hadds

section Decode

variable {α : Type} [Carriable α]

/-- To narrow a value is to accept it, or not. -/
theorem narrow_eq_accept (codec : Codec α) (view : View) (address : Nat)
    (any : Decoded (Shared AnyValue)) :
    (narrow α any).map (fun decoded => .decoded (decoded.map (Shared.map AnyValue.of))) =
      (Request.decode codec view address).accept (.decoded any) := by
  cases any with
  | value any =>
    obtain ⟨place, any⟩ := any
    rw [narrow, Request.accept]
    cases hany : any.as? α with
    | some value =>
      obtain rfl := AnyValue.as?_eq_some_iff.1 hany
      exact (if_pos rfl).symm
    | none =>
      rw [if_neg (AnyValue.as?_eq_none_iff.1 hany)]
      rfl
  | absent => rfl
  | skipped => rfl

/-- A decoder accepts what its own codec answers. -/
theorem accept_computed_decode (codec : Codec α) (view : View) (address : Nat) (answer : Answer)
    (h : (Request.decode codec view address).computed = .ok answer) :
    (Request.decode codec view address).accept answer = .ok answer := by
  rw [Request.computed] at h
  cases hcodec : codec.decode (some view.bytes) with
  | error failure =>
    rw [hcodec] at h
    cases h
  | ok decoded =>
    rw [hcodec] at h
    cases h
    cases decoded with
    | value value => exact if_pos rfl
    | absent => rfl
    | skipped => rfl

theorem perform_decode (s : PublishScope) (codec : Codec α) (view : View) (address : Nat) :
    s.perform (.decode codec view address) =
      let o := (s.decodeOnce ⟨view.address, view.bytes.length, codec.id⟩ view address
        fun _ => ScopeCodec.decode (.typed codec) view.bytes).map .decoded
      ⟨o.result.bind (Request.decode codec view address).accept, o.scope, o.calls⟩ := by
  rw [perform, decode]
  dsimp only [Outcome.map, ScopeCodec.decode]
  congr 1
  generalize (s.decodeOnce _ view address _).result = result
  cases result with
  | error failure => rfl
  | ok any => exact narrow_eq_accept codec view address any

end Decode

/-- All calls do the same. -/
theorem does_perform (s : PublishScope) (request : Request) :
    s.Does request.key request.held request.question request.computed request.accept
      (s.perform request) := by
  cases request with
  | @encode α _ codec value =>
    exact s.does_encodeOnce ⟨value.address, .of α, codec.id⟩ (value.map AnyValue.of)
      fun _ => codec.encode (some value.value)
  | encodeAny codec value =>
    exact s.does_encodeOnce ⟨value.address, value.value.type, codec.id⟩ value
      fun _ => codec.encode (some value.value)
  | @decode α _ codec view address =>
    -- What is added is a value that carries its type, so the answer is one before it is narrowed.
    have hcomputed : (Request.decode codec view address).computed =
        (ScopeCodec.decode (.typed codec) view.bytes).map
          fun decoded => .decoded (decoded.map (Shared.mk address)) := by
      rw [Request.computed, ScopeCodec.decode]
      cases codec.decode (some view.bytes) with
      | error failure => rfl
      | ok decoded => exact congrArg (Except.ok ∘ Answer.decoded) (decoded.map_map _ _).symm
    rw [perform_decode]
    refine Does.bind ?_ (accept_computed_decode codec view address)
    rw [hcomputed]
    exact s.does_decodeOnce ⟨view.address, view.bytes.length, codec.id⟩ view address
      fun _ => ScopeCodec.decode (.typed codec) view.bytes
  | decodeAny codec view address =>
    exact s.does_decodeOnce ⟨view.address, view.bytes.length, codec.id⟩ view address
      fun _ => codec.decode (some view.bytes)

section Perform

variable (s : PublishScope) (request : Request)

theorem calls_perform : (s.perform request).calls =
    match s.find? request.key with
    | some _ => []
    | none => [request.question] := by
  have h := s.does_perform request
  generalize s.perform request = o at h
  cases h with
  | found hfind => rw [hfind]
  | failed hfind _ => rw [hfind]
  | added hfind _ _ => rw [hfind]

theorem result_perform : (s.perform request).result =
    match s.find? request.key with
    | some known => request.accept known.answer
    | none => request.computed := by
  have h := s.does_perform request
  generalize s.perform request = o at h
  cases h with
  | found hfind => rw [hfind]
  | failed hfind hfailure => rw [hfind, hfailure]
  | added hfind hanswer _ => rw [hfind, hanswer]

/-- What is remembered after a call. -/
theorem find?_perform (other : Key) : (s.perform request).scope.find? other =
    match s.find? request.key, request.computed with
    | none, .ok answer =>
      if request.key = other then some ⟨request.held, answer⟩ else s.find? other
    | _, _ => s.find? other := by
  have h := s.does_perform request
  generalize s.perform request = o at h
  cases h with
  | found hfind => rw [hfind]
  | failed hfind hfailure => rw [hfind, hfailure]
  | added hfind hanswer hadds =>
    rw [hfind, hanswer]
    exact hadds.find?_eq other

/-- A call that fails leaves the scope as it was. -/
theorem scope_perform_of_error {failure : CodecError}
    (hfailure : (s.perform request).result = .error failure) :
    (s.perform request).scope = s := by
  have h := s.does_perform request
  generalize s.perform request = o at h hfailure
  cases h with
  | found _ => rfl
  | failed _ _ => rfl
  | added _ _ _ => cases hfailure

end Perform

theorem Request.eq_of_accept {request : Request} {found answer : Answer}
    (h : request.accept found = .ok answer) : answer = found := by
  unfold Request.accept at h
  split at h
  · split at h
    · exact (Except.ok.inj h).symm
    · cases h
  · exact (Except.ok.inj h).symm

end CommandWire.PublishScope
