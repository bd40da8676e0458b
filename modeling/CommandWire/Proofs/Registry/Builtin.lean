import CommandWire.Proofs.Argument.Range
import CommandWire.Proofs.Argument.Tagged
import CommandWire.Proofs.Registry.Growth
import CommandWire.Registry.Builtin

/-!
# The built-in codecs relay

Every built-in codec carries what it has decoded to itself, and so does the fallback codec of a type
without doubles. So does then the codec that a registry finds, if it starts with the built-in codecs
and has only been looked up in since (`GrowsTo.codecFor_eq`, `codecFor_builtin_relays`).
-/

namespace CommandWire.Registry

/-! ### Installed codecs -/

section Install

variable {p : AnyCodec → Prop} {r : Registry}

/-- What holds of all codecs that factories make holds of all codecs after they are installed. -/
theorem forall_codec_install (hr : ∀ e ∈ r.entries, p e.codec) (factories : List Factory)
    (hf : ∀ f ∈ factories, p (f.build ())) :
    ∀ e ∈ (r.install factories).registry.entries, p e.codec := by
  induction factories generalizing r with
  | nil => exact hr
  | cons factory factories ih =>
    rw [List.forall_mem_cons] at hf
    rw [install]
    split
    next => exact ih hr hf.2
    next => exact ih (forall_mem_set hr hf.1) hf.2

end Install

/-! ### Built-in codecs -/

open Codec in
theorem builtinFactories_relay : ∀ f ∈ builtinFactories, (f.build ()).Relays := by
  simp only [builtinFactories, List.forall_mem_cons]
  refine ⟨?_, ?_, ?_, ?_, ?_, ?_, ?_, ?_, ?_, ?_, ?_, ?_, ?_, ?_, ?_, ?_, ?_, nofun⟩
  · exact (ofWidth_relays (by decide) bool_carries).erased
  · exact (ofWidth_relays (by decide) short_carries).erased
  · exact (ofWidth_relays (by decide) int_carries).erased
  · exact (ofWidth_relays (by decide) long_carries).erased
  · exact (ofWidth_relays (by decide) double_carries).erased
  · exact (ofWidth_relays (by decide) (ordinal_carries (α := TimeUnit))).erased
  · exact (ofWidth_relays (by decide) (ordinal_carries (α := SortOrder))).erased
  · exact (ofWidth_relays (by decide) (ordinal_carries (α := Aggregate))).erased
  · exact (ofWidth_relays (by decide) point_carries).erased
  · exact (ofWidth_relays (by decide) limit_carries).erased
  · exact (ofWidth_relays (by decide) expiration_carries).erased
  · exact (relays_of_carries geoLocation_carries).erased
  · exact (range_relays fun x => ⟨_, double_carries x⟩).erased
  · exact (range_relays fun n => ⟨_, long_carries n⟩).erased
  · exact (range_relays string_isFaithful).erased
  · exact (relays_of_carries sortOptions_carries).erased
  · exact (relays_of_carries weightedKeys_carries).erased

theorem builtin_relays : ∀ e ∈ builtin.entries, e.codec.Relays := by
  have hempty : ∀ e ∈ empty.entries, e.codec.Relays := by nofun
  rw [builtin]
  exact forall_codec_install hempty builtinFactories builtinFactories_relay

theorem codecFor_builtin_relays {type : ValueType}
    (h : builtin.find? type = none → type.shape.hasDouble = false) :
    (builtin.codecFor type).Relays := by
  rw [codecFor]
  cases hfind : builtin.find? type with
  | some entry => exact builtin_relays entry (List.mem_of_find?_eq_some hfind)
  | none => exact ValueType.fallback_relays (h hfind)

end CommandWire.Registry
