import CommandWire.Proofs.Registry.Lookup
import Mathlib.Data.List.Dedup

/-!
# What a registry has been through

Seen from outside a registry is what has been asked of it. Three things can happen: a codec is
registered for a type, the codec for a type is looked up, and a factory is passed over
(`Registry.Step`). A request is a list of such steps; that of an installation has one for each
factory, in order. From the history alone follow the types with an entry, the codec of each, and
what has been reported (`types`, `codecOf`, `logOf`).

A registry follows a history if its entries are these (`Follows`). Every request keeps it so
(`Follows.perform`), and hence every list of requests does (`Follows.run`).
-/

namespace CommandWire.Registry

/-! ### Histories -/

/-- What can happen to a registry. -/
inductive Step where
  | registered (type : ValueType) (codec : AnyCodec)
  | lookedUp (type : ValueType)
  | passedOver (factory : String)

namespace Step

/-- The type that has an entry after the step. -/
def type? : Step → Option ValueType
  | registered type _ => some type
  | lookedUp type => some type
  | passedOver _ => none

/-- The codec that the step registers for a type. -/
def codecFor? (type : ValueType) : Step → Option AnyCodec
  | registered other codec => if other = type then some codec else none
  | lookedUp _ | passedOver _ => none

end Step

/-- The types that have been registered or looked up, each once. -/
def types (history : List Step) : List ValueType := (history.filterMap Step.type?).dedup

/-- The codec that has been registered last for a type. -/
def lastRegistered? (history : List Step) (type : ValueType) : Option AnyCodec :=
  (history.filterMap (Step.codecFor? type)).getLast?

/-- The codec for a type: the one registered last, or else the fallback. -/
def codecOf (history : List Step) (type : ValueType) : AnyCodec :=
  (lastRegistered? history type).getD type.fallback

/-- The codec of the entry for a type, if there is an entry. -/
def present? (history : List Step) (type : ValueType) : Option AnyCodec :=
  if type ∈ types history then some (codecOf history type) else none

/-- What a step reports after a history: a registration itself, and before it that another codec has
been there; the first look-up of a type without an entry; and a factory without target. -/
def Step.log (past : List Step) : Step → List LogEvent
  | registered type codec =>
    (match present? past type with
      | some previous =>
        if previous.id = codec.id ∧ previous.target = codec.target then []
        else [.codecReplaced type.name previous.name previous.target.name codec.name]
      | none => []) ++ [.codecRegistered type.name codec.name]
  | lookedUp type =>
    if type ∈ types past then [] else [.fallbackCached type.name type.fallback.name]
  | passedOver factory => [.factorySkipped factory]

/-- What some steps report, one after the other. -/
def logOf (past : List Step) : List Step → List LogEvent
  | [] => []
  | step :: later => step.log past ++ logOf (past ++ [step]) later

/-! ### Requests -/

/-- What can be asked of a registry. -/
inductive Request : Type 1 where
  | register (type : ValueType) (codec : AnyCodec)
  | registerTyped {α : Type} [Carriable α] (codec : Codec α)
  | lookup (type : ValueType)
  | install (factories : List Factory)
  | encode (type : ValueType) (value : Option AnyValue)
  | encodeTyped {α : Type} [Carriable α] (value : Option α)
  | decode (type : ValueType) (bytes : Option Bytes)
  | decodeTyped (α : Type) [Carriable α] (bytes : Option Bytes)
  | contains (type : ValueType)
  | size
  | registered

namespace Request

/-- What the answer to a request is. -/
def Answer : Request → Type
  | register .. | registerTyped _ => Option AnyCodec
  | lookup _ => Entry
  | install _ => Nat
  | encode .. | encodeTyped _ => Except CodecError (Option Bytes)
  | decode .. => Except CodecError (Decoded AnyValue)
  | decodeTyped α _ => Except CodecError (Decoded α)
  | contains _ => Bool
  | size => Nat
  | registered => List (String × String)

/-- What the request does, step by step. -/
def steps : Request → List Step
  | register type codec => [.registered type codec]
  | @registerTyped α _ codec => [.registered (.of α) codec.erased]
  | lookup type => [.lookedUp type]
  | install factories =>
    factories.map fun factory =>
      match factory.target with
      | some type => .registered type (factory.build ())
      | none => .passedOver factory.name
  | encode type _ => [.lookedUp type]
  | @encodeTyped α _ _ => [.lookedUp (.of α)]
  | decode type _ => [.lookedUp type]
  | decodeTyped α _ => [.lookedUp (.of α)]
  | contains _ | size | registered => []

end Request

/-- The steps of some requests. -/
def history (requests : List Request) : List Step := requests.flatMap Request.steps

/-- Answers a request. -/
def perform (r : Registry) : (request : Request) → Outcome request.Answer
  | .register type codec => r.register type codec
  | @Request.registerTyped _ _ codec => r.registerTyped codec
  | .lookup type => r.lookup type
  | .install factories => r.install factories
  | .encode type value => r.encode type value
  | @Request.encodeTyped _ _ value => r.encodeTyped value
  | .decode type bytes => r.decode type bytes
  | @Request.decodeTyped α _ bytes => r.decodeTyped α bytes
  | .contains type => ⟨r.contains type, r, []⟩
  | .size => ⟨r.size, r, []⟩
  | .registered => ⟨r.registered, r, []⟩

/-- What some requests leave behind, one after the other. -/
def run (r : Registry) : List Request → Outcome Unit
  | [] => ⟨(), r, []⟩
  | request :: others =>
    let done := r.perform request
    let rest := done.registry.run others
    { rest with log := done.log ++ rest.log }

/-! ### Longer histories -/

variable {past : List Step}

theorem mem_types_append {type : ValueType} (past later : List Step) :
    type ∈ types (past ++ later) ↔ type ∈ types past ∨ type ∈ types later := by
  simp only [types, List.mem_dedup, List.filterMap_append, List.mem_append]

theorem mem_types_singleton {type : ValueType} {step : Step} :
    type ∈ types [step] ↔ step.type? = some type := by
  simp [types, eq_comm]

theorem lastRegistered?_append (past later : List Step) (type : ValueType) :
    lastRegistered? (past ++ later) type =
      (lastRegistered? later type).or (lastRegistered? past type) := by
  rw [lastRegistered?, List.filterMap_append, List.getLast?_append]
  rfl

theorem lastRegistered?_singleton (step : Step) (type : ValueType) :
    lastRegistered? [step] type = step.codecFor? type := by
  cases h : step.codecFor? type <;> simp [lastRegistered?, h]

theorem type?_of_codecFor? {step : Step} {type : ValueType} {codec : AnyCodec}
    (h : step.codecFor? type = some codec) : step.type? = some type := by
  cases step with
  | registered other _ =>
    rw [Step.codecFor?] at h
    split at h
    next same => rw [same, Step.type?]
    next => cases h
  | lookedUp _ => cases h
  | passedOver _ => cases h

/-- What has been registered has an entry. -/
theorem mem_types_of_lastRegistered? {type : ValueType} {codec : AnyCodec}
    (h : lastRegistered? past type = some codec) : type ∈ types past := by
  obtain ⟨step, hstep, hcodec⟩ := List.mem_filterMap.1 (List.mem_of_getLast? h)
  rw [types, List.mem_dedup]
  exact List.mem_filterMap.2 ⟨step, hstep, type?_of_codecFor? hcodec⟩

/-- One more step registers a codec, or looks up a type that may have none, or is about another
type. -/
theorem present?_append_singleton (past : List Step) (step : Step) (type : ValueType) :
    present? (past ++ [step]) type =
      (step.codecFor? type).or ((present? past type).or
        (if step.type? = some type then some type.fallback else none)) := by
  simp only [present?, codecOf, mem_types_append, mem_types_singleton, lastRegistered?_append,
    lastRegistered?_singleton]
  cases hcodec : step.codecFor? type with
  | some codec => simp [type?_of_codecFor? hcodec]
  | none =>
    cases hlast : lastRegistered? past type with
    | some codec => simp [mem_types_of_lastRegistered? hlast]
    | none => by_cases hmem : type ∈ types past <;> simp [hmem]

theorem logOf_append (past steps later : List Step) :
    logOf past (steps ++ later) = logOf past steps ++ logOf (past ++ steps) later := by
  induction steps generalizing past with
  | nil => simp [logOf]
  | cons step steps ih => simp [logOf, ih]

/-! ### Steps of a registry -/

/-- Does a step. -/
def advance (r : Registry) : Step → Registry
  | .registered type codec => r.set type codec
  | .lookedUp type => (r.lookup type).registry
  | .passedOver _ => r

theorem registry_install (r : Registry) (factories : List Factory) :
    (r.install factories).registry = (Request.install factories).steps.foldl advance r := by
  induction factories generalizing r with
  | nil => rfl
  | cons factory factories ih =>
    rw [install, Request.steps, List.map_cons, List.foldl_cons]
    cases factory.target with
    | some type => exact ih _
    | none => exact ih _

/-- A request does its steps to the registry, and nothing else. -/
theorem registry_perform (r : Registry) (request : Request) :
    (r.perform request).registry = request.steps.foldl advance r := by
  cases request with
  | install factories => exact registry_install r factories
  | _ => rfl

theorem registry_run (r : Registry) (requests : List Request) :
    (r.run requests).registry = (history requests).foldl advance r := by
  induction requests generalizing r with
  | nil => rfl
  | cons request others ih =>
    rw [history, List.flatMap_cons, List.foldl_append, ← registry_perform]
    exact ih _

theorem find?_advance (r : Registry) (step : Step) (type : ValueType) :
    (r.advance step).find? type =
      ((step.codecFor? type).map (⟨type, ·, r.nextSerial⟩)).or ((r.find? type).or
        (if step.type? = some type then some ⟨type, type.fallback, r.nextSerial⟩ else none)) := by
  cases step with
  | registered other codec =>
    rw [advance, find?_set, Step.codecFor?, Step.type?]
    by_cases h : other = type
    · simp [h]
    · simp [h]
  | lookedUp other =>
    rw [advance, lookup, Step.codecFor?, Step.type?]
    -- The registry changes only if there has been no entry, so there is none to be replaced.
    cases hf : r.find? other with
    | some entry =>
      by_cases h : other = type
      · simp [← h, hf]
      · simp [h]
    | none =>
      show (r.set other other.fallback).find? type = _
      rw [find?_set]
      by_cases h : other = type
      · simp [← h, hf]
      · simp [h]
  | passedOver _ => simp [advance, Step.codecFor?, Step.type?]

theorem nextSerial_le_advance (r : Registry) (step : Step) :
    r.nextSerial ≤ (r.advance step).nextSerial := by
  cases step with
  | registered _ _ => exact Nat.le_succ _
  | lookedUp type =>
    rw [advance, lookup]
    split
    next => exact Nat.le_refl _
    next => exact Nat.le_succ _
  | passedOver _ => exact Nat.le_refl _

/-- An entry stays until a codec is registered for its type, and then there is a later one. -/
theorem find?_foldl_advance {r : Registry} {type : ValueType} {entry : Entry}
    (hentry : r.find? type = some entry) (hserial : entry.serial < r.nextSerial)
    (steps : List Step) :
    (lastRegistered? steps type = none ∧ (steps.foldl advance r).find? type = some entry) ∨
    (lastRegistered? steps type ≠ none ∧ ∃ other, (steps.foldl advance r).find? type = some other ∧
      entry.serial < other.serial) := by
  induction steps generalizing r entry with
  | nil => exact .inl ⟨rfl, hentry⟩
  | cons step steps ih =>
    have hlast : lastRegistered? (step :: steps) type =
        (lastRegistered? steps type).or (step.codecFor? type) := by
      rw [← List.singleton_append, lastRegistered?_append, lastRegistered?_singleton]
    have hfind := find?_advance r step type
    rw [List.foldl_cons, hlast]
    cases hcodec : step.codecFor? type with
    | some codec =>
      -- From here on the induction is about the new entry, whose serial is higher.
      rw [hcodec] at hfind
      have hnext : r.nextSerial < (r.advance step).nextSerial := by
        cases step with
        | registered _ _ => exact Nat.lt_succ_self _
        | lookedUp _ => cases hcodec
        | passedOver _ => cases hcodec
      refine .inr ⟨by cases lastRegistered? steps type <;> simp, ?_⟩
      obtain ⟨_, hstays⟩ | ⟨_, other, hother, hlater⟩ := ih hfind hnext
      · exact ⟨_, hstays, hserial⟩
      · exact ⟨other, hother, Nat.lt_trans hserial hlater⟩
    | none =>
      rw [hcodec, hentry] at hfind
      rw [Option.or_none]
      exact ih hfind (Nat.lt_of_lt_of_le hserial (nextSerial_le_advance r step))

/-! ### Registries with a history -/

/-- The entries are those of the history, at most one for a type, and all have been made before the
next one. -/
structure Follows (r : Registry) (past : List Step) : Prop where
  types_nodup : (r.entries.map Entry.type).Nodup
  serial_lt : ∀ e ∈ r.entries, e.serial < r.nextSerial
  present?_eq : ∀ type, (r.find? type).map Entry.codec = present? past type

theorem follows_empty : empty.Follows [] where
  types_nodup := List.nodup_nil
  serial_lt := nofun
  present?_eq _ := rfl

theorem types_set (r : Registry) (type : ValueType) (codec : AnyCodec) :
    (r.set type codec).entries.map Entry.type =
      if r.contains type then r.entries.map Entry.type else r.entries.map Entry.type ++ [type] := by
  show (if r.contains type then _ else _ : List Entry).map Entry.type = _
  split
  next =>
    rw [List.map_map]
    apply List.map_congr_left
    intro e _
    by_cases h : e.type = type <;> simp [h]
  next => rw [List.map_append]; rfl

theorem find?_isSome_iff (r : Registry) (type : ValueType) :
    (r.find? type).isSome ↔ type ∈ r.entries.map Entry.type := by
  simp [find?, List.find?_isSome]

namespace Follows

variable {r : Registry} {past : List Step}

theorem set (hr : r.Follows past) (type : ValueType) (codec : AnyCodec) :
    ((r.set type codec).entries.map Entry.type).Nodup ∧
      ∀ e ∈ (r.set type codec).entries, e.serial < (r.set type codec).nextSerial := by
  constructor
  · rw [types_set]
    split
    next => exact hr.types_nodup
    next hnone =>
      have hmem : type ∉ r.entries.map Entry.type := by
        rwa [contains, find?_isSome_iff] at hnone
      rw [← List.concat_eq_append]
      exact hr.types_nodup.concat hmem
  · apply forall_mem_set
    · exact fun e he => Nat.lt_succ_of_lt (hr.serial_lt e he)
    · exact Nat.lt_succ_self _

/-- Every step keeps entries and history together. -/
theorem advance (hr : r.Follows past) (step : Step) :
    (r.advance step).Follows (past ++ [step]) := by
  have hentries : ((r.advance step).entries.map Entry.type).Nodup ∧
      ∀ e ∈ (r.advance step).entries, e.serial < (r.advance step).nextSerial := by
    cases step with
    | registered type codec => exact hr.set type codec
    | lookedUp type =>
      rw [Registry.advance, lookup]
      split
      next => exact ⟨hr.types_nodup, hr.serial_lt⟩
      next => exact hr.set type type.fallback
    | passedOver _ => exact ⟨hr.types_nodup, hr.serial_lt⟩
  -- A step does the same to what is found and to what the history says.
  refine ⟨hentries.1, hentries.2, fun type => ?_⟩
  rw [find?_advance, present?_append_singleton, ← hr.present?_eq]
  cases step.codecFor? type with
  | some codec => rfl
  | none =>
    cases r.find? type with
    | some entry => rfl
    | none => split <;> rfl

theorem foldl_advance (hr : r.Follows past) (steps : List Step) :
    (steps.foldl Registry.advance r).Follows (past ++ steps) := by
  induction steps generalizing r past with
  | nil => rwa [List.append_nil]
  | cons step steps ih =>
    rw [← List.singleton_append, ← List.append_assoc]
    exact ih (hr.advance step)

theorem perform (hr : r.Follows past) (request : Request) :
    (r.perform request).registry.Follows (past ++ request.steps) := by
  rw [registry_perform]
  exact hr.foldl_advance _

/-- Requests keep entries and history together. -/
theorem run (hr : r.Follows past) (requests : List Request) :
    (r.run requests).registry.Follows (past ++ history requests) := by
  rw [registry_run]
  exact hr.foldl_advance _

/-- An entry stays until a codec is registered for its type, and its type has one from then on. -/
theorem find?_run (hr : r.Follows past) {type : ValueType} {entry : Entry}
    (hentry : r.find? type = some entry) (later : List Request) :
    ∃ other, (r.run later).registry.find? type = some other ∧
      (other = entry ↔ lastRegistered? (history later) type = none) := by
  have hserial := hr.serial_lt entry (List.mem_of_find?_eq_some hentry)
  rw [registry_run]
  obtain ⟨hnone, hstays⟩ | ⟨hsome, other, hother, hlater⟩ :=
    find?_foldl_advance hentry hserial (history later)
  · exact ⟨entry, hstays, iff_of_true rfl hnone⟩
  · refine ⟨other, hother, iff_of_false (fun hsame => ?_) hsome⟩
    rw [hsame] at hlater
    exact Nat.lt_irrefl _ hlater

/-! ### What is reported -/

theorem log_register (hr : r.Follows past) (type : ValueType) (codec : AnyCodec) :
    (r.register type codec).log = (Step.registered type codec).log past := by
  show registrationLog type ((r.find? type).map Entry.codec) codec = _
  rw [hr.present?_eq, Step.log]
  cases present? past type with
  | none => rfl
  | some previous =>
    simp only [registrationLog, AnyCodec.isSame, decide_eq_true_eq]
    split <;> rfl

theorem log_lookup (hr : r.Follows past) (type : ValueType) :
    (r.lookup type).log = (Step.lookedUp type).log past := by
  have hpresent := hr.present?_eq type
  rw [present?] at hpresent
  rw [lookup, Step.log]
  split at hpresent
  next hmem =>
    rw [if_pos hmem]
    cases hf : r.find? type with
    | some entry => rfl
    | none =>
      rw [hf] at hpresent
      cases hpresent
  next hmem =>
    rw [if_neg hmem, Option.map_eq_none_iff.1 hpresent]

theorem log_install (hr : r.Follows past) (factories : List Factory) :
    (r.install factories).log = logOf past (Request.install factories).steps := by
  induction factories generalizing r past with
  | nil => rfl
  | cons factory factories ih =>
    rw [install, Request.steps, List.map_cons, logOf]
    cases factory.target with
    | some type =>
      rw [← hr.log_register]
      exact congrArg _ (ih (hr.advance (.registered type (factory.build ()))))
    | none => exact congrArg _ (ih (hr.advance (.passedOver factory.name)))

theorem log_perform (hr : r.Follows past) (request : Request) :
    (r.perform request).log = logOf past request.steps := by
  have hone : ∀ step, logOf past [step] = step.log past := fun step => List.append_nil _
  cases request with
  | register type codec => exact (hr.log_register type codec).trans (hone _).symm
  | registerTyped codec => exact (hr.log_register _ codec.erased).trans (hone _).symm
  | install factories => exact hr.log_install factories
  | lookup type => exact (hr.log_lookup type).trans (hone _).symm
  | encode type _ => exact (hr.log_lookup type).trans (hone _).symm
  | encodeTyped _ => exact (hr.log_lookup _).trans (hone _).symm
  | decode type _ => exact (hr.log_lookup type).trans (hone _).symm
  | decodeTyped _ _ => exact (hr.log_lookup _).trans (hone _).symm
  | contains _ => rfl
  | size => rfl
  | registered => rfl

/-- What requests report follows from the history. -/
theorem log_run (hr : r.Follows past) (requests : List Request) :
    (r.run requests).log = logOf past (history requests) := by
  induction requests generalizing r past with
  | nil => rfl
  | cons request others ih =>
    rw [history, List.flatMap_cons, logOf_append, ← hr.log_perform]
    exact congrArg _ (ih (hr.perform request))

end Follows

end CommandWire.Registry
