import CommandWire.Argument.GeoLocation
import CommandWire.Proofs.Argument.FixedWidth
import CommandWire.Proofs.Codec.Tagged

/-!
# Arguments made of tagged parts

Named places, options for sorting and weighted keys are carried to themselves, whichever of their
parts are missing (`Codec.tagged_arguments_decode_encode`). What is empty or false has no tag, and a
missing tag is read as empty or false, so the two are not told apart and need not be.
-/

namespace CommandWire

namespace Codec

/-! ### Parts -/

theorem string_carries (text : String) : string.Carries text (Bytes.ofText text) text := by
  refine ofBytes_carries rfl ?_
  rw [textOfBytes, Bytes.toText?_ofText]

theorem string_isFaithful : string.IsFaithful := fun text => ⟨_, string_carries text⟩

theorem fallback_isFaithful {α : Type} [Carriable α]
    (h : ∀ data, Json.ReadsBack (ValueType.of α).shape Json.depthLimit data data) :
    (Codec.fallback α).IsFaithful := by
  intro value
  obtain ⟨bytes, -, hcarries⟩ := fallback_carries (h (Carriable.toData value))
  exact ⟨bytes, hcarries⟩

theorem texts_isFaithful : (Codec.fallback (List String)).IsFaithful :=
  fallback_isFaithful fun _ => ⟨126, rfl, List.forall₂_same.2 fun _ _ => rfl⟩

theorem keys_isFaithful : (Codec.fallback (List (String × Bytes))).IsFaithful :=
  fallback_isFaithful fun _ => ⟨126, rfl, List.forall₂_same.2 fun _ _ =>
    ⟨125, rfl, rfl, integers_readBack _ 124, trivial⟩⟩

/-! ### Places -/

theorem geoLocation_carries (g : GeoLocation) :
    ∃ bytes, bytes ≠ [] ∧ geoLocation.Carries g bytes g := by
  obtain ⟨name, hname⟩ := TaggedParts.exists_isPart rfl string_isFaithful g.name
  obtain ⟨point, hpoint⟩ := TaggedParts.exists_isPart rfl (fun p => ⟨_, point_carries p⟩) g.point
  let parts : TaggedParts :=
    (TaggedParts.put .empty GeoLocation.nameTag name).put GeoLocation.pointTag point
  have hto : g.toParts = .ok parts := by
    rw [GeoLocation.toParts, hname.encodePart_eq]
    exact hpoint.encodePart_eq _ _
  have hof : GeoLocation.ofParts parts = .ok g := by
    rw [GeoLocation.ofParts, hname.decodePart_eq parts, hpoint.decodePart_eq parts]
    · rfl
    · simp [parts, GeoLocation.nameTag, GeoLocation.pointTag]
    · simp [parts, GeoLocation.nameTag, GeoLocation.pointTag]
  exact ofTagged_carries hto hof

/-! ### Options for sorting -/

/-- An empty list is left out, and is what a missing list counts as. -/
theorem getD_ite_isEmpty {α : Type} (l : List α) :
    (if l.isEmpty then none else some l).getD [] = l := by
  cases l <;> rfl

theorem getD_ite_flag (flag : Bool) : (if flag then some true else none).getD false = flag := by
  cases flag <;> rfl

theorem sortOptions_carries (o : SortOptions) :
    ∃ bytes, bytes ≠ [] ∧ sortOptions.Carries o bytes o := by
  obtain ⟨order, horder⟩ := TaggedParts.exists_isPart rfl (fun a => ⟨_, ordinal_carries a⟩) o.order
  obtain ⟨alpha, halpha⟩ := TaggedParts.exists_isPart rfl (fun b => ⟨_, bool_carries b⟩)
    (if o.alpha then some true else none)
  obtain ⟨pattern, hpattern⟩ := TaggedParts.exists_isPart rfl string_isFaithful o.byPattern
  obtain ⟨get, hget⟩ := TaggedParts.exists_isPart rfl texts_isFaithful
    (if o.getPatterns.isEmpty then none else some o.getPatterns)
  obtain ⟨limit, hlimit⟩ := TaggedParts.exists_isPart rfl (fun l => ⟨_, limit_carries l⟩) o.limit
  let parts : TaggedParts :=
    ((((TaggedParts.put .empty SortOptions.orderTag order).put SortOptions.alphaTag alpha).put
      SortOptions.byTag pattern).put SortOptions.getTag get).put SortOptions.limitTag limit
  have hto : o.toParts = .ok parts := by
    simp only [SortOptions.toParts, bind, Except.bind, horder.encodePart_eq, halpha.encodePart_eq,
      hpattern.encodePart_eq, hget.encodePart_eq, hlimit.encodePart_eq, parts]
  have hof : SortOptions.ofParts parts = .ok o := by
    rw [SortOptions.ofParts, horder.decodePart_eq parts, halpha.decodePart_eq parts,
      hpattern.decodePart_eq parts, hget.decodePart_eq parts, hlimit.decodePart_eq parts]
    · show Except.ok (SortOptions.mk _ (Option.getD _ _) _ (Option.getD _ _) _) = _
      rw [getD_ite_isEmpty, getD_ite_flag]
    all_goals simp [parts, SortOptions.orderTag, SortOptions.alphaTag, SortOptions.byTag,
      SortOptions.getTag, SortOptions.limitTag]
  exact ofTagged_carries hto hof

/-! ### Weighted keys -/

theorem mapM_weightOfBytes (weights : List (String × Double)) :
    (weights.map fun (key, weight) => (key, doubleBytes weight)).mapM WeightedKeys.weightOfBytes =
      .ok weights := by
  induction weights with
  | nil => rfl
  | cons first weights ih =>
    obtain ⟨key, weight⟩ := first
    have hfirst : WeightedKeys.weightOfBytes (key, doubleBytes weight) = .ok (key, weight) := by
      rw [WeightedKeys.weightOfBytes, if_pos (length_doubleBytes weight), ofDoubleBytes_doubleBytes]
    rw [List.map_cons, List.mapM_cons, hfirst, ih]
    rfl

theorem weightedKeys_carries (w : WeightedKeys) :
    ∃ bytes, bytes ≠ [] ∧ weightedKeys.Carries w bytes w := by
  let weights := w.weights.map fun (key, weight) => (key, doubleBytes weight)
  obtain ⟨keys, hkeys⟩ := TaggedParts.exists_isPart rfl keys_isFaithful
    (if weights.isEmpty then none else some weights)
  obtain ⟨aggregate, haggregate⟩ := TaggedParts.exists_isPart rfl (fun a => ⟨_, ordinal_carries a⟩)
    w.aggregate
  let parts : TaggedParts :=
    (TaggedParts.put .empty WeightedKeys.weightsTag keys).put WeightedKeys.aggregateTag aggregate
  have hto : w.toParts = .ok parts := by
    show (TaggedParts.encodePart .empty WeightedKeys.weightsTag _
      (if weights.isEmpty then none else some weights) >>= _) = _
    rw [hkeys.encodePart_eq]
    exact haggregate.encodePart_eq _ _
  have hweights : (Option.getD (if weights.isEmpty then none else some weights) []).mapM
      WeightedKeys.weightOfBytes = .ok w.weights := by
    rw [getD_ite_isEmpty]
    exact mapM_weightOfBytes w.weights
  have hof : WeightedKeys.ofParts parts = .ok w := by
    rw [WeightedKeys.ofParts, hkeys.decodePart_eq parts, haggregate.decodePart_eq parts]
    · simp only [bind, Except.bind, hweights]
      rfl
    all_goals simp [parts, WeightedKeys.weightsTag, WeightedKeys.aggregateTag]
  exact ofTagged_carries hto hof

/-! ### All of them -/

/-- **Arguments made of tagged parts are read back.** Every named place, every set of sort options
and all weighted keys have an encoding, which is not empty and is decoded to the same value: so what
is missing, empty or false stays so and nothing else becomes so, lists keep their order and their
repetitions, and every double keeps its bits. -/
theorem tagged_arguments_decode_encode :
    (∀ g : GeoLocation, ∃ bytes, bytes ≠ [] ∧
      geoLocation.encode (some g) = .ok (some bytes) ∧
      geoLocation.decode (some bytes) = .ok (.value g)) ∧
    (∀ o : SortOptions, ∃ bytes, bytes ≠ [] ∧
      sortOptions.encode (some o) = .ok (some bytes) ∧
      sortOptions.decode (some bytes) = .ok (.value o)) ∧
    (∀ w : WeightedKeys, ∃ bytes, bytes ≠ [] ∧
      weightedKeys.encode (some w) = .ok (some bytes) ∧
      weightedKeys.decode (some bytes) = .ok (.value w)) := by
  refine ⟨fun g => ?_, fun o => ?_, fun w => ?_⟩
  · obtain ⟨bytes, hsome, hcarries⟩ := geoLocation_carries g
    exact ⟨bytes, hsome, hcarries.encode_eq, hcarries.decode_eq⟩
  · obtain ⟨bytes, hsome, hcarries⟩ := sortOptions_carries o
    exact ⟨bytes, hsome, hcarries.encode_eq, hcarries.decode_eq⟩
  · obtain ⟨bytes, hsome, hcarries⟩ := weightedKeys_carries w
    exact ⟨bytes, hsome, hcarries.encode_eq, hcarries.decode_eq⟩

end Codec

end CommandWire
