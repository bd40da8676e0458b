import CommandWire.Event.Codec

/-!
# Looking codecs up

Looking a codec up may enter a fallback, and so changes the registry. It does not change what any
later look-up finds (`codecFor_lookup`), because a type without an entry has got its fallback all
the time. So `Registry.codecFor`, which only looks, is what the codec for a type is, before and
after any look-ups.
-/

namespace CommandWire

namespace Registry

/-- The codec for a type: that of its entry, or else the fallback. -/
def codecFor (r : Registry) (type : ValueType) : AnyCodec :=
  match r.find? type with
  | some entry => entry.codec
  | none => type.fallback

/-- Replacing the entry of a type changes what is found for that type alone. -/
theorem find?_replace (entries : List Entry) (entry : Entry) (other : ValueType) :
    (entries.map fun e => if e.type = entry.type then entry else e).find? (·.type = other) =
      if entry.type = other then (entries.find? (·.type = other)).map fun _ => entry
      else entries.find? (·.type = other) := by
  induction entries with
  | nil => simp
  | cons e entries ih =>
    rw [List.map_cons, List.find?_cons, List.find?_cons, ih]
    by_cases hs : e.type = entry.type
    · rw [if_pos hs, hs]
      by_cases ho : entry.type = other <;> simp [ho]
    · rw [if_neg hs]
      by_cases ho : entry.type = other
      · rw [if_pos ho, if_pos ho]
        simp [ho ▸ hs]
      · rw [if_neg ho, if_neg ho]

theorem find?_set (r : Registry) (type : ValueType) (codec : AnyCodec) (other : ValueType) :
    (r.set type codec).find? other =
      if type = other then some ⟨type, codec, r.nextSerial⟩ else r.find? other := by
  have hset : (r.set type codec).find? other =
      (if r.contains type then
        r.entries.map fun e => if e.type = type then ⟨type, codec, r.nextSerial⟩ else e
      else r.entries ++ [⟨type, codec, r.nextSerial⟩]).find? (·.type = other) := rfl
  rw [hset, find?]
  by_cases hc : r.contains type
  · rw [if_pos hc, find?_replace r.entries ⟨type, codec, r.nextSerial⟩ other]
    by_cases ho : type = other
    · subst ho
      obtain ⟨entry, he⟩ := Option.isSome_iff_exists.1 hc
      rw [if_pos rfl, if_pos rfl, show r.entries.find? _ = some entry from he]
      rfl
    · rw [if_neg ho, if_neg ho]
  · rw [if_neg hc, List.find?_append]
    by_cases ho : type = other
    · subst ho
      have he : r.entries.find? (·.type = type) = none := by simpa [contains, find?] using hc
      simp [he]
    · simp [ho]

/-- After an entry has been set, all are as before or this one. -/
theorem forall_mem_set {r : Registry} {p : Entry → Prop} (hr : ∀ e ∈ r.entries, p e)
    {type : ValueType} {codec : AnyCodec} (hnew : p ⟨type, codec, r.nextSerial⟩) :
    ∀ e ∈ (r.set type codec).entries, p e := by
  intro e he
  replace he : e ∈ if r.contains type then
      r.entries.map fun e => if e.type = type then ⟨type, codec, r.nextSerial⟩ else e
    else r.entries ++ [⟨type, codec, r.nextSerial⟩] := he
  split at he
  next =>
    obtain ⟨former, hformer, rfl⟩ := List.mem_map.1 he
    split
    next => exact hnew
    next => exact hr former hformer
  next =>
    obtain he | he := List.mem_append.1 he
    · exact hr e he
    · rw [List.mem_singleton.1 he]
      exact hnew

theorem type_lookup (r : Registry) (type : ValueType) : (r.lookup type).result.type = type := by
  rw [lookup]
  cases hf : r.find? type with
  | some entry => simpa using List.find?_some hf
  | none => rfl

/-- What a look-up has found is there. -/
theorem find?_lookup (r : Registry) (type : ValueType) :
    (r.lookup type).registry.find? type = some (r.lookup type).result := by
  rw [lookup]
  cases hf : r.find? type with
  | some entry => exact hf
  | none => exact (find?_set r type type.fallback type).trans (if_pos rfl)

theorem result_lookup_of_find? {r : Registry} {type : ValueType} {entry : Entry}
    (h : r.find? type = some entry) : (r.lookup type).result = entry := by
  rw [lookup, h]

theorem codec_lookup (r : Registry) (type : ValueType) :
    (r.lookup type).result.codec = r.codecFor type := by
  rw [lookup, codecFor]
  cases r.find? type <;> rfl

/-- No look-up changes what is found. -/
theorem codecFor_lookup (r : Registry) (type : ValueType) :
    (r.lookup type).registry.codecFor = r.codecFor := by
  rw [lookup]
  cases hf : r.find? type with
  | some entry => rfl
  | none =>
    funext other
    show (r.set type type.fallback).codecFor other = _
    rw [codecFor, codecFor, find?_set]
    by_cases h : type = other
    · -- The entry that has been made is for the codec that was found without it.
      subst h
      rw [if_pos rfl, hf]
    · rw [if_neg h]

end Registry

/-! ### In a workspace -/

namespace Workspace

theorem codec_lookup (w : Workspace) (type : ValueType) :
    (w.lookup type).1 = w.registry.codecFor type :=
  w.registry.codec_lookup type

theorem codecFor_lookup (w : Workspace) (type : ValueType) :
    (w.lookup type).2.registry.codecFor = w.registry.codecFor :=
  w.registry.codecFor_lookup type

end Workspace

end CommandWire
