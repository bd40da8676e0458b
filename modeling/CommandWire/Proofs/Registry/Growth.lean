import CommandWire.Proofs.Registry.Lookup
import Mathlib.Data.List.Nodup

/-!
# Registries that have only been looked up in

Between two registrations a registry changes by look-ups only (`GrowsTo`). They change no codec that
is found (`GrowsTo.codecFor_eq`), and all that they leave behind are fallbacks for types that had no
entry (`GrowsTo.exists_cached`).
-/

namespace CommandWire.Registry

/-- From the one registry come others by look-ups, which may enter fallbacks. -/
inductive GrowsTo (r : Registry) : Registry → Prop
  | refl : GrowsTo r r
  | lookup {s : Registry} (type : ValueType) : GrowsTo r s → GrowsTo r (s.lookup type).registry

theorem GrowsTo.codecFor_eq {r s : Registry} (h : r.GrowsTo s) : s.codecFor = r.codecFor := by
  induction h with
  | refl => rfl
  | lookup type _ ih => rw [codecFor_lookup, ih]

theorem growsTo_lookup (r : Registry) (type : ValueType) : r.GrowsTo (r.lookup type).registry :=
  .lookup type .refl

theorem GrowsTo.trans {r s u : Registry} (h : r.GrowsTo s) (h' : s.GrowsTo u) : r.GrowsTo u := by
  induction h' with
  | refl => exact h
  | lookup type _ ih => exact ih.lookup type

/-- A look-up changes nothing, or there was no entry for the type and now the last one is for it. -/
theorem registry_lookup_cases (r : Registry) (type : ValueType) :
    (r.lookup type).registry = r ∨ (r.find? type = none ∧
      (r.lookup type).registry.entries = r.entries ++ [⟨type, type.fallback, r.nextSerial⟩]) := by
  rw [lookup]
  cases hf : r.find? type with
  | some entry => exact .inl rfl
  | none =>
    refine .inr ⟨rfl, ?_⟩
    show (if r.contains type then _ else _ : List Entry) = _
    rw [contains, hf, if_neg (by simp)]

/-- The former entries stay as they are and in their places. Behind them there are fallbacks, at most
one for a type, and only for types that had no entry. -/
theorem GrowsTo.exists_cached {r s : Registry} (h : r.GrowsTo s) :
    ∃ cached, s.entries = r.entries ++ cached ∧ (cached.map Entry.type).Nodup ∧
      ∀ e ∈ cached, r.find? e.type = none ∧ e.codec = e.type.fallback := by
  induction h with
  | refl => exact ⟨[], (List.append_nil _).symm, List.nodup_nil, nofun⟩
  | @lookup s type _ ih =>
    obtain ⟨cached, hentries, hnodup, hcached⟩ := ih
    obtain hsame | ⟨hnone, hnew⟩ := s.registry_lookup_cases type
    · rw [hsame]
      exact ⟨cached, hentries, hnodup, hcached⟩
    · -- What is not found now has not been found before, and has not been cached meanwhile.
      rw [find?, hentries, List.find?_append, Option.or_eq_none_iff] at hnone
      refine ⟨cached ++ [⟨type, type.fallback, s.nextSerial⟩], ?_, ?_, ?_⟩
      · rw [hnew, hentries, List.append_assoc]
      · rw [List.map_append, List.map_singleton, ← List.concat_eq_append]
        refine hnodup.concat fun hmem => ?_
        obtain ⟨e, he, htype⟩ := List.mem_map.1 hmem
        simpa [htype] using List.find?_eq_none.1 hnone.2 e he
      · intro e he
        obtain he | he := List.mem_append.1 he
        · exact hcached e he
        · rw [List.mem_singleton.1 he]
          exact ⟨hnone.1, rfl⟩

end CommandWire.Registry
