import CommandWire.Codec.Fallback
import CommandWire.Proofs.Codec.Carrying
import CommandWire.Proofs.Json.Faithful
import CommandWire.Proofs.Json.Relay

/-!
# What the fallback codec changes

The fallback codec accepts a value iff its text can be read at all. So an accepted value is always
decoded to some value, but not always to itself: `ofJsonBytes_jsonBytes` says that it is decoded to
itself iff all its written parts are kept. A double that is not finite is refused wherever it would
be written as itself. What an option holds may be written as `null`, though; such a value is
accepted and comes back as nothing (`jsonBytes_some_infinity`).

None of this happens to a value without doubles that has been decoded: `null` under an option has
been read as nothing, so the option holds nothing that is written as `null`. The codec carries such
a value to itself (`Codec.fallback_relays`).
-/

namespace CommandWire

variable {α : Type} [Carriable α]

namespace Carriable

theorem ofData_eq_iff {data : (ValueType.of α).Data} {value : α} :
    ofData data = value ↔ data = toData value := by
  constructor
  · rintro rfl
    exact (toData_ofData data).symm
  · rintro rfl
    exact ofData_toData value

/-- The property holds of all written parts of a value. -/
def AllWritten (p : (shape : Shape) → shape.Data → Prop) (value : α) : Prop :=
  Json.AllWritten p (ValueType.of α).shape (toData value)

end Carriable

/-- A value is accepted with its text, which is decoded as what the data are read back as, or it is
refused by the fallback codec itself. -/
theorem jsonBytes_cases (value : α) :
    (∃ bytes data, jsonBytes value = .ok bytes ∧ ofJsonBytes α bytes = .ok (Carriable.ofData data) ∧
      Json.ReadsBack (ValueType.of α).shape Json.depthLimit (Carriable.toData value) data) ∨
    ∃ failure, jsonBytes value = .error (.fallback (ValueType.of α).name .encode failure) := by
  cases hread : Json.read (ValueType.of α).shape
    (Json.write (ValueType.of α).shape (Carriable.toData value)) with
  | ok data =>
    refine .inl ⟨Json.write _ (Carriable.toData value), data, ?_, ?_,
      Json.read_write_eq_ok_iff.1 hread⟩
    · rw [jsonBytes, hread]
    · rw [ofJsonBytes, hread]
  | error failure =>
    refine .inr ⟨failure, ?_⟩
    rw [jsonBytes, hread]

/-- An accepted value is decoded, and to itself iff each of its written parts is kept; and no value
is accepted in which a double that is not finite is written. -/
theorem ofJsonBytes_jsonBytes (value : α) :
    (∀ bytes, jsonBytes value = .ok bytes → ∃ back, ofJsonBytes α bytes = .ok back ∧
      (back = value ↔ Carriable.AllWritten Json.IsKept value)) ∧
    (¬ Carriable.AllWritten Json.IsFinite value →
      ∃ failure, jsonBytes value = .error (.fallback (ValueType.of α).name .encode failure)) := by
  obtain ⟨text, data, hencode, hdecode, hback⟩ | hrefused := jsonBytes_cases value
  · constructor
    · intro bytes h
      cases hencode.symm.trans h
      refine ⟨_, hdecode, Carriable.ofData_eq_iff.trans ?_⟩
      exact Json.eq_iff_of_readsBack _ _ _ _ hback
    · intro h
      exact absurd (Json.areFinite_of_readsBack _ _ _ _ hback) h
  · constructor
    · intro bytes h
      obtain ⟨failure, hfailure⟩ := hrefused
      cases hfailure.symm.trans h
    · exact fun _ => hrefused

/-- Under an option an infinite double is accepted, and is decoded as nothing. -/
theorem jsonBytes_some_infinity :
    jsonBytes (some (⟨0x7ff0000000000000⟩ : Double)) = .ok (Bytes.ofText "null") ∧
      ofJsonBytes (Option Double) (Bytes.ofText "null") = .ok none :=
  ⟨rfl, rfl⟩

/-! ### What is carried to itself -/

theorem ofJsonBytes_of_readsBack {value : α}
    (h : Json.ReadsBack (ValueType.of α).shape Json.depthLimit (Carriable.toData value)
      (Carriable.toData value)) :
    ∃ bytes, bytes ≠ [] ∧ jsonBytes value = .ok bytes ∧ ofJsonBytes α bytes = .ok value := by
  have hread := Json.read_write_eq_ok_iff.2 h
  refine ⟨Json.write (ValueType.of α).shape (Carriable.toData value), ?_, ?_, ?_⟩
  · obtain ⟨b, more, htext, -⟩ :=
      Json.startsValue_write (ValueType.of α).shape (Carriable.toData value)
    rw [htext]
    exact List.cons_ne_nil b more
  · rw [jsonBytes, hread]
  · rw [ofJsonBytes, hread]
    exact congrArg Except.ok (Carriable.ofData_toData value)

namespace Codec

theorem fallback_carries {value : α}
    (h : Json.ReadsBack (ValueType.of α).shape Json.depthLimit (Carriable.toData value)
      (Carriable.toData value)) :
    ∃ bytes, bytes ≠ [] ∧ (Codec.fallback α).Carries value bytes value := by
  obtain ⟨bytes, hsome, hencode, hdecode⟩ := ofJsonBytes_of_readsBack h
  exact ⟨bytes, hsome, ofBytes_carries hencode hdecode⟩

/-- Without doubles, whatever the fallback codec has decoded it carries to itself. -/
theorem fallback_relays (hdouble : (ValueType.of α).shape.hasDouble = false) :
    (Codec.fallback α).Relays := by
  intro bytes value hdecode
  replace hdecode : (ofJsonBytes α bytes).map Decoded.value = .ok (.value value) := hdecode
  rw [ofJsonBytes] at hdecode
  cases hread : Json.read (ValueType.of α).shape bytes with
  | error failure =>
    rw [hread] at hdecode
    cases hdecode
  | ok data =>
    rw [hread] at hdecode
    cases hdecode
    apply fallback_carries
    rw [Carriable.toData_ofData]
    exact Json.readsBack_of_read hdouble (ValueType.of α).wellNamed hread

end Codec

theorem ValueType.fallback_relays {type : ValueType} (hdouble : type.shape.hasDouble = false) :
    type.fallback.Relays := by
  let _ := type.carriable
  exact (Codec.fallback_relays (α := type.Data) hdouble).erased

end CommandWire
