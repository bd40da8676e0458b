import CommandWire.Proofs.PublishScope.History

/-!
# A publish scope asks once

A call asks its codec, once, if no call with its key has succeeded since the scope was cleared;
otherwise it returns what such a call has returned. All that is read off `History.Sound`, which
every history has (`asks_once`).

Two things stand beside it. A call can be made through the adapter of its codec (`Request.erased`),
and that changes nothing about its key. And a decoder does not refuse what is remembered, as long as
the identity of a codec tells the type of its values (`Request.Fits`).
-/

namespace CommandWire.PublishScope

/-! ### Through the adapter -/

namespace Request

/-- The same call on the codec for values that carry their type. -/
def erased : Request → Request
  | encode codec value => encodeAny codec.erased (value.map AnyValue.of)
  | encodeAny codec value => encodeAny codec value
  | decode codec view address => decodeAny codec.erased view address
  | decodeAny codec view address => decodeAny codec view address

theorem key_erased (request : Request) : request.erased.key = request.key := by
  cases request <;> rfl

theorem question_erased (request : Request) : request.erased.question = request.question := by
  cases request <;> rfl

theorem computed_erased (request : Request) : request.erased.computed = request.computed := by
  cases request with
  | encode codec value => simp only [erased, computed, Shared.map, Codec.erased, AnyValue.as?_of]
  | encodeAny codec value => rfl
  | decode codec view address =>
    simp only [erased, computed, Codec.erased]
    cases codec.decode (some view.bytes) with
    | error failure => rfl
    | ok decoded => exact congrArg (Except.ok ∘ Answer.decoded) (decoded.map_map _ _)
  | decodeAny codec view address => rfl

end Request

/-! ### Values of the expected types -/

section Fits

variable (typeOf : CodecId → ValueType)

/-- A value that has been decoded is of the type that belongs to the codec. -/
def Answer.Fits : Key → Answer → Prop
  | .decoded key, .decoded (.value any) => any.value.type = typeOf key.codec
  | _, _ => True

/-- The codec decodes to values of the type that belongs to it. -/
def Request.Fits : Request → Prop
  | @decode α _ codec _ _ => .of α = typeOf codec.id
  | request => ∀ answer, request.computed = .ok answer → answer.Fits typeOf request.key

def Step.Fits : Step → Prop
  | call request => request.Fits typeOf
  | clear => True

/-- Everything that is remembered is of the type that belongs to its codec. -/
def Fits (s : PublishScope) : Prop :=
  ∀ key known, s.find? key = some known → known.answer.Fits typeOf key

end Fits

variable {typeOf : CodecId → ValueType}

namespace Request

theorem Fits.computed {request : Request} (h : request.Fits typeOf) {answer : Answer}
    (hanswer : request.computed = .ok answer) : answer.Fits typeOf request.key := by
  cases request with
  | decode codec view address =>
    rw [Request.computed] at hanswer
    cases hcodec : codec.decode (some view.bytes) with
    | error failure =>
      rw [hcodec] at hanswer
      cases hanswer
    | ok decoded =>
      rw [hcodec] at hanswer
      cases hanswer
      cases decoded with
      | value value => exact h
      | absent => trivial
      | skipped => trivial
  | encode | encodeAny | decodeAny => exact h answer hanswer

/-- What fits is not refused. -/
theorem Fits.accept {request : Request} (h : request.Fits typeOf) {answer : Answer}
    (hanswer : answer.Fits typeOf request.key) : request.accept answer = .ok answer := by
  unfold Request.accept
  split
  next => exact if_pos (hanswer.trans h.symm)
  next => rfl

/-- The adapter of a codec decodes to values of the same type. -/
theorem Fits.erased {request : Request} (h : request.Fits typeOf) :
    request.erased.Fits typeOf := by
  have hcomputed : ∀ answer, request.erased.computed = .ok answer →
      answer.Fits typeOf request.erased.key := by
    intro answer hanswer
    rw [computed_erased] at hanswer
    rw [key_erased]
    exact h.computed hanswer
  cases request <;> exact hcomputed

end Request

theorem fits_empty : empty.Fits typeOf := by
  intro key known h
  cases key <;> cases h

theorem Fits.perform {s : PublishScope} (hs : s.Fits typeOf) {request : Request}
    (h : request.Fits typeOf) : (s.perform request).scope.Fits typeOf := by
  intro key known hknown
  rw [find?_perform] at hknown
  split at hknown
  next answer _ hcomputed =>
    split at hknown
    next hkey =>
      -- Only this entry is new.
      subst hkey
      cases hknown
      exact h.computed hcomputed
    next => exact hs key known hknown
  next => exact hs key known hknown

theorem Fits.foldl_step {h : History} (hh : h.scope.Fits typeOf) (steps : List Step)
    (hsteps : ∀ step ∈ steps, step.Fits typeOf) :
    (steps.foldl History.step h).scope.Fits typeOf := by
  induction steps generalizing h with
  | nil => exact hh
  | cons step steps ih =>
    obtain ⟨hstep, hrest⟩ := List.forall_mem_cons.1 hsteps
    cases step with
    | call request => exact ih (hh.perform hstep) hrest
    | clear => exact ih fits_empty hrest

/-! ### Asking once -/

namespace History

variable {h : History}

theorem Sound.find?_eq_none_iff (hs : h.Sound) {key : Key} :
    h.scope.find? key = none ↔ ∀ answer, ¬ h.Returned key answer := by
  simp only [← hs.returned_iff]
  cases h.scope.find? key with
  | none => simp
  | some known => simp

theorem Sound.exists_find? (hs : h.Sound) {key : Key} {answer : Answer}
    (hreturned : h.Returned key answer) :
    ∃ known, h.scope.find? key = some known ∧ known.answer = answer :=
  Option.map_eq_some_iff.1 ((hs.returned_iff key answer).2 hreturned)

/-- What the next call does, and how many entries there are. -/
structure AsksOnce (h : History) : Prop where
  /-- If none has succeeded with this key, the codec is asked. -/
  asks : ∀ request : Request, (∀ answer, ¬ h.Returned request.key answer) →
    (h.scope.perform request).calls = [request.question] ∧
    (h.scope.perform request).result = request.computed
  /-- If one has succeeded, its answer is passed on. -/
  finds : ∀ (request : Request) (answer : Answer), h.Returned request.key answer →
    (h.scope.perform request).calls = [] ∧
    (h.scope.perform request).result = request.accept answer
  /-- A failure leaves nothing behind. -/
  scope_eq_of_error : ∀ (request : Request) (failure : CodecError),
    (h.scope.perform request).result = .error failure → (h.scope.perform request).scope = h.scope
  size_eq : h.scope.size = h.computedKeys.length
  computedKeys_nodup : h.computedKeys.Nodup
  mem_computedKeys_iff : ∀ key, key ∈ h.computedKeys ↔ ∃ answer, h.Returned key answer
  /-- What has been computed keeps its place, so that the key stands for nothing else. -/
  held_eq : ∀ m ∈ h.past, m.computed = true →
    (h.scope.find? m.request.key).map Known.held = some m.request.held

theorem Sound.asksOnce (hs : h.Sound) : h.AsksOnce where
  asks request hnone := by
    rw [calls_perform, result_perform, hs.find?_eq_none_iff.2 hnone]
    exact ⟨rfl, rfl⟩
  finds request answer hreturned := by
    obtain ⟨known, hfind, rfl⟩ := hs.exists_find? hreturned
    rw [calls_perform, result_perform, hfind]
    exact ⟨rfl, rfl⟩
  scope_eq_of_error request _ := scope_perform_of_error h.scope request
  size_eq := by rw [← length_keys, hs.keys_perm.length_eq]
  computedKeys_nodup := hs.keys_perm.nodup_iff.1 hs.keys_nodup
  mem_computedKeys_iff key := by
    rw [← hs.keys_perm.mem_iff, mem_keys_iff, Option.isSome_iff_ne_none, ne_eq,
      hs.find?_eq_none_iff, Classical.not_forall_not]
  held_eq := hs.held_eq

end History

/-- **A publish scope asks once.** Whatever it has been asked since it was cleared, a codec is asked
if and only if no call with the same key has succeeded since; otherwise the answer of that call is
returned, be it a value, an absent one or a skipped one. It does not matter which of the calls are
made through the adapters of their codecs, nor what is asked under other keys. -/
theorem asks_once (steps : List Step) :
    (History.run steps).AsksOnce ∧
    (∀ request : Request, request.erased.key = request.key ∧
      request.erased.question = request.question ∧ request.erased.computed = request.computed) ∧
    (∀ (p : Key → Bool) (request : Request), p request.key = true →
      let alone := History.run (steps.filter (Step.keeps p))
      ((History.run steps).scope.perform request).calls = (alone.scope.perform request).calls ∧
      ((History.run steps).scope.perform request).result =
        (alone.scope.perform request).result) ∧
    (∀ typeOf : CodecId → ValueType, (∀ step ∈ steps, step.Fits typeOf) →
      ∀ (request : Request) (answer : Answer), request.Fits typeOf →
        (History.run steps).Returned request.key answer →
        ((History.run steps).scope.perform request).result = .ok answer ∧
        ((History.run steps).scope.perform request.erased).result = .ok answer) := by
  have sound := History.sound_run steps
  refine ⟨sound.asksOnce, ?_, ?_, ?_⟩
  · intro request
    exact ⟨request.key_erased, request.question_erased, request.computed_erased⟩
  · intro p request hp
    have hagree := agreeOn_run p steps request.key hp
    exact ⟨by rw [calls_perform, calls_perform, hagree],
      by rw [result_perform, result_perform, hagree]⟩
  · intro typeOf hsteps request answer hrequest hreturned
    obtain ⟨known, hfind, rfl⟩ := sound.exists_find? hreturned
    have hfits : (History.run steps).scope.Fits typeOf := fits_empty.foldl_step steps hsteps
    have haccept : ∀ other : Request, other.key = request.key → other.Fits typeOf →
        ((History.run steps).scope.perform other).result = .ok known.answer := by
      intro other hkey hother
      rw [← hkey] at hfind
      rw [result_perform, hfind]
      exact hother.accept (hfits _ _ hfind)
    exact ⟨haccept request rfl hrequest, haccept _ request.key_erased hrequest.erased⟩

end CommandWire.PublishScope
