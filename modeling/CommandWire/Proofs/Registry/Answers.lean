import CommandWire.Proofs.Registry.History
import Mathlib.Data.List.Induction
import Mathlib.Data.Prod.Lex
import Mathlib.Data.String.Basic

/-!
# What a registry answers

The history of a registry says what each request is answered (`Request.Expected`): a look-up with
the codec registered last or the fallback, a registration with the codec that has been there, a
listing with the types that have been registered or looked up. A registry that follows the history gives
these answers (`Follows.expected_perform`).

So does a registry that starts empty, whatever it has been asked before; and it keeps its entries
and has reported what the history says (`requests_follow_history`).
-/

namespace CommandWire.Registry

/-- What the answer to a request is after a history. -/
def Request.Expected (past : List Step) : (request : Request) → request.Answer → Prop
  | .register type _, (answer : Option AnyCodec) => answer = present? past type
  | @Request.registerTyped α _ _, (answer : Option AnyCodec) => answer = present? past (.of α)
  | .lookup type, (answer : Entry) => answer.type = type ∧ answer.codec = codecOf past type
  | .install factories, (answer : Nat) => answer = factories.countP (·.target.isSome)
  | .encode type value, answer => answer = (codecOf past type).encode value
  | @Request.encodeTyped α _ value, answer =>
    answer = (codecOf past (.of α)).encode (value.map AnyValue.of)
  | .decode type bytes, answer => answer = (codecOf past type).decode bytes
  | @Request.decodeTyped α _ bytes, answer =>
    answer = ((codecOf past (.of α)).decode bytes).bind (Decoded.narrow α)
  | .contains type, (answer : Bool) => answer = decide (type ∈ types past)
  | .size, (answer : Nat) => answer = (types past).length
  | .registered, (answer : List (String × String)) =>
    answer.Perm ((types past).map fun type => (type.name, (codecOf past type).name)) ∧
      answer.Pairwise (listedBefore · ·)

/-- What a factory asks for when it is installed. -/
def Factory.registration? (factory : Factory) : Option Request :=
  factory.target.map fun type => .register type (factory.build ())

/-- To install factories is to register the codecs of those with a target, one after the other. -/
theorem registry_install_eq_run (r : Registry) (factories : List Factory) :
    (r.install factories).registry =
      (r.run (factories.filterMap Factory.registration?)).registry := by
  induction factories generalizing r with
  | nil => rfl
  | cons factory factories ih =>
    rw [install, List.filterMap_cons, Factory.registration?]
    cases factory.target with
    | some type => exact ih _
    | none => exact ih _

theorem result_install (r : Registry) (factories : List Factory) :
    (r.install factories).result = factories.countP (·.target.isSome) := by
  induction factories generalizing r with
  | nil => rfl
  | cons factory factories ih =>
    rw [install, List.countP_cons]
    cases factory.target with
    | some type => exact congrArg (· + 1) (ih _)
    | none => exact ih _

theorem result_decodeTyped (α : Type) [Carriable α] (r : Registry) (bytes : Option Bytes) :
    (r.decodeTyped α bytes).result =
      ((r.lookup (.of α)).result.codec.decode bytes).bind (Decoded.narrow α) := by
  rw [decodeTyped, decode]
  dsimp only
  cases (r.lookup (.of α)).result.codec.decode bytes <;> rfl

/-! ### The order of the listing -/

theorem listedBefore_iff {a b : String × String} : listedBefore a b ↔ toLex a ≤ toLex b := by
  simp [listedBefore, Prod.Lex.toLex_le_toLex]

theorem listedBefore_trans (a b c : String × String) (hab : listedBefore a b)
    (hbc : listedBefore b c) : listedBefore a c :=
  listedBefore_iff.2 (le_trans (listedBefore_iff.1 hab) (listedBefore_iff.1 hbc))

theorem listedBefore_total (a b : String × String) : listedBefore a b || listedBefore b a := by
  rw [Bool.or_eq_true, listedBefore_iff, listedBefore_iff]
  exact le_total _ _

/-! ### Entries and history -/

namespace Follows

variable {r : Registry} {past : List Step}

theorem codec_of_find? (hr : r.Follows past) {type : ValueType} {entry : Entry}
    (h : r.find? type = some entry) : type ∈ types past ∧ entry.codec = codecOf past type := by
  have hpresent := hr.present?_eq type
  rw [h, present?] at hpresent
  split at hpresent
  next hmem => exact ⟨hmem, Option.some.inj hpresent⟩
  next => cases hpresent

theorem find?_eq_none_iff (hr : r.Follows past) {type : ValueType} :
    r.find? type = none ↔ type ∉ types past := by
  rw [← Option.map_eq_none_iff, hr.present?_eq, present?]
  split <;> simp_all

theorem mem_types_iff (hr : r.Follows past) (type : ValueType) :
    type ∈ r.entries.map Entry.type ↔ type ∈ types past := by
  rw [← find?_isSome_iff, ← Option.ne_none_iff_isSome, ne_eq, hr.find?_eq_none_iff, not_not]

theorem contains_eq (hr : r.Follows past) (type : ValueType) :
    r.contains type = decide (type ∈ types past) := by
  rw [contains, Bool.eq_iff_iff, decide_eq_true_eq, find?_isSome_iff, hr.mem_types_iff]

/-- The entries are for the types of the history, each once. -/
theorem types_perm (hr : r.Follows past) : (r.entries.map Entry.type).Perm (types past) :=
  (List.perm_ext_iff_of_nodup hr.types_nodup (List.nodup_dedup _)).2 hr.mem_types_iff

theorem codec_of_mem (hr : r.Follows past) {entry : Entry} (h : entry ∈ r.entries) :
    entry.codec = codecOf past entry.type := by
  obtain ⟨other, hother⟩ := Option.isSome_iff_exists.1
    ((find?_isSome_iff r entry.type).2 (List.mem_map_of_mem h))
  -- What is found for the type is this entry, since no other has the type.
  have htype : other.type = entry.type := by simpa using List.find?_some hother
  have hsame : other = entry :=
    List.inj_on_of_nodup_map hr.types_nodup (List.mem_of_find?_eq_some hother) h htype
  rw [← hsame]
  exact htype ▸ (hr.codec_of_find? hother).2

/-- The codec that is found is that of the history. -/
theorem codecFor_eq (hr : r.Follows past) (type : ValueType) :
    r.codecFor type = codecOf past type := by
  rw [codecFor]
  cases hf : r.find? type with
  | some entry => exact (hr.codec_of_find? hf).2
  | none =>
    have hlast : lastRegistered? past type = none :=
      Option.eq_none_iff_forall_ne_some.2 fun codec h =>
        hr.find?_eq_none_iff.1 hf (mem_types_of_lastRegistered? h)
    rw [codecOf, hlast]
    rfl

theorem registered_perm (hr : r.Follows past) :
    r.registered.Perm ((types past).map fun type => (type.name, (codecOf past type).name)) := by
  have hentries : r.entries.map (fun e => (e.type.name, e.codec.name)) =
      (r.entries.map Entry.type).map fun type => (type.name, (codecOf past type).name) := by
    rw [List.map_map]
    apply List.map_congr_left
    intro e he
    rw [hr.codec_of_mem he]
    rfl
  rw [registered, hentries]
  exact (List.mergeSort_perm _ _).trans (hr.types_perm.map _)

/-- Every request is answered from the history. -/
theorem expected_perform (hr : r.Follows past) (request : Request) :
    request.Expected past (r.perform request).result := by
  have hcodec : ∀ type, (r.lookup type).result.codec = codecOf past type := fun type => by
    rw [codec_lookup, hr.codecFor_eq]
  cases request with
  | register type codec => exact hr.present?_eq type
  | registerTyped codec => exact hr.present?_eq _
  | lookup type => exact ⟨type_lookup r type, hcodec type⟩
  | install factories => exact result_install r factories
  | encode type value => exact congrArg (·.encode value) (hcodec type)
  | encodeTyped value => exact congrArg (·.encode (value.map AnyValue.of)) (hcodec _)
  | decode type bytes => exact congrArg (·.decode bytes) (hcodec type)
  | decodeTyped α bytes =>
    rw [Registry.perform, result_decodeTyped, hcodec]
    rfl
  | contains type => exact hr.contains_eq type
  | size => exact (List.length_map Entry.type).symm.trans hr.types_perm.length_eq
  | registered =>
    exact ⟨hr.registered_perm, List.pairwise_mergeSort listedBefore_trans listedBefore_total _⟩

end Follows

/-! ### Fallbacks that are reported -/

/-- The first step that gives the type an entry. -/
def entered? (history : List Step) (type : ValueType) : Option Step :=
  history.find? (·.type? = some type)

theorem entered?_append_singleton (past : List Step) (step : Step) (type : ValueType) :
    entered? (past ++ [step]) type =
      (entered? past type).or (if step.type? = some type then some step else none) := by
  rw [entered?, List.find?_append, List.find?_singleton]
  simp [entered?]

theorem entered?_eq_none_iff {past : List Step} {type : ValueType} :
    entered? past type = none ↔ type ∉ types past := by
  simp [entered?, types]

section NoFallback

variable {past : List Step} {step : Step}
  (h : ∀ type, step = .lookedUp type → type ∈ types past)
include h

/-- Only the look-up of an unknown type reports a fallback. -/
theorem filter_log_eq_nil : (step.log past).filter (·.level = .debug) = [] := by
  cases step with
  | registered type codec =>
    rw [Step.log]
    cases present? past type with
    | none => rfl
    | some previous =>
      dsimp only
      split <;> rfl
  | lookedUp type =>
    rw [Step.log, if_pos (h type rfl)]
    rfl
  | passedOver _ => rfl

theorem entered?_append_eq_lookedUp_iff (type : ValueType) :
    entered? (past ++ [step]) type = some (.lookedUp type) ↔
      entered? past type = some (.lookedUp type) := by
  rw [entered?_append_singleton]
  cases hpast : entered? past type with
  | some _ => rfl
  | none =>
    have hstep : step ≠ .lookedUp type := fun hlookedUp =>
      entered?_eq_none_iff.1 hpast (h type hlookedUp)
    simp [hstep]

end NoFallback

/-- The fallbacks that are reported are those of the types that have been looked up before anything
else, each once. -/
theorem exists_cached (past : List Step) :
    ∃ cached : List ValueType, cached.Nodup ∧
      (∀ type, type ∈ cached ↔ entered? past type = some (.lookedUp type)) ∧
      (logOf [] past).filter (·.level = .debug) =
        cached.map fun type => .fallbackCached type.name type.fallback.name := by
  induction past using List.reverseRecOn with
  | nil => exact ⟨[], List.nodup_nil, by simp [entered?], rfl⟩
  | append_singleton past step ih =>
    obtain ⟨cached, hnodup, hmem, hlog⟩ := ih
    have hdone : (logOf [] (past ++ [step])).filter (·.level = .debug) =
        cached.map (fun type => .fallbackCached type.name type.fallback.name) ++
          (step.log past).filter (·.level = .debug) := by
      rw [logOf_append, List.filter_append, hlog, logOf, logOf, List.append_nil, List.nil_append]
    rw [hdone]
    by_cases hnew : ∃ type, step = .lookedUp type ∧ type ∉ types past
    · obtain ⟨type, rfl, hunknown⟩ := hnew
      have hnone := entered?_eq_none_iff.2 hunknown
      refine ⟨cached ++ [type], ?_, fun other => ?_, ?_⟩
      · rw [← List.concat_eq_append]
        refine hnodup.concat fun h => ?_
        rw [hmem, hnone] at h
        cases h
      · rw [List.mem_append, hmem, List.mem_singleton, entered?_append_singleton]
        by_cases hother : other = type
        · simp [hother, hnone, Step.type?]
        · simp [hother, Ne.symm hother, Step.type?]
      · rw [Step.log, if_neg hunknown, List.map_append]
        rfl
    · have hknown : ∀ type, step = .lookedUp type → type ∈ types past := fun type hstep =>
        Classical.byContradiction fun hunknown => hnew ⟨type, hstep, hunknown⟩
      refine ⟨cached, hnodup, fun type => ?_, ?_⟩
      · rw [hmem, entered?_append_eq_lookedUp_iff hknown]
      · rw [filter_log_eq_nil hknown, List.append_nil]

/-! ### Any requests -/

/-- The requests before have left behind what their history says. -/
structure Outcome.AccordsWith (done : Outcome Unit) (past : List Step) : Prop where
  expected : ∀ request : Request, request.Expected past (done.registry.perform request).result
  install_eq : ∀ factories, (done.registry.install factories).registry =
    (done.registry.run (factories.filterMap Factory.registration?)).registry
  /-- No entry goes away, and only a registration for its type replaces it. -/
  find?_run : ∀ type ∈ types past, ∀ later, ∃ entry other,
    done.registry.find? type = some entry ∧
    (done.registry.run later).registry.find? type = some other ∧
    (other = entry ↔ lastRegistered? (history later) type = none)
  /-- What a look-up, an encoding or a decoding has found or made is found again later. -/
  lookup_run : ∀ (request : Request) type, request.steps = [.lookedUp type] → ∀ later,
    ((done.registry.run (request :: later)).registry.lookup type).result =
        (done.registry.lookup type).result ↔
      lastRegistered? (history later) type = none
  log_eq : done.log = logOf [] past
  /-- Fallbacks are reported for the types that have been looked up before anything else, once for
  each. -/
  cached : ∃ cached : List ValueType, cached.Nodup ∧
    (∀ type, type ∈ cached ↔ entered? past type = some (.lookedUp type)) ∧
    done.log.filter (·.level = .debug) =
      cached.map fun type => .fallbackCached type.name type.fallback.name

theorem Follows.find?_run_of_mem {r : Registry} {past : List Step} (hr : r.Follows past)
    {type : ValueType} (htype : type ∈ types past) (later : List Request) :
    ∃ entry other, r.find? type = some entry ∧ (r.run later).registry.find? type = some other ∧
      (other = entry ↔ lastRegistered? (history later) type = none) := by
  obtain ⟨entry, hentry⟩ := Option.ne_none_iff_exists'.1 fun hnone =>
    hr.find?_eq_none_iff.1 hnone htype
  obtain ⟨other, hother, hsame⟩ := hr.find?_run hentry later
  exact ⟨entry, other, hentry, hother, hsame⟩

theorem Follows.lookup_run {r : Registry} {past : List Step} (hr : r.Follows past)
    {request : Request} {type : ValueType} (hsteps : request.steps = [.lookedUp type])
    (later : List Request) :
    ((r.run (request :: later)).registry.lookup type).result = (r.lookup type).result ↔
      lastRegistered? (history later) type = none := by
  -- The entry may be the one that the request has made, so it is followed from there on.
  have hfound : (r.perform request).registry.find? type = some (r.lookup type).result := by
    rw [registry_perform, hsteps]
    exact find?_lookup r type
  obtain ⟨other, hother, hsame⟩ := (hr.perform request).find?_run hfound later
  rw [Registry.run, result_lookup_of_find? hother]
  exact hsame

/-- **A registry is what has been asked of it.** One that starts empty answers and reports what its
history says, whatever it has been asked. -/
theorem requests_follow_history (requests : List Request) :
    (empty.run requests).AccordsWith (history requests) := by
  have hdone : (empty.run requests).registry.Follows (history requests) :=
    follows_empty.run requests
  have hlog : (empty.run requests).log = logOf [] (history requests) :=
    follows_empty.log_run requests
  exact {
    expected := hdone.expected_perform
    install_eq := registry_install_eq_run _
    find?_run := fun _ htype => hdone.find?_run_of_mem htype
    lookup_run := fun _ _ hsteps => hdone.lookup_run hsteps
    log_eq := hlog
    cached := by
      rw [hlog]
      exact exists_cached (history requests) }

end CommandWire.Registry
