import CommandWire.Argument.GeoLocation
import CommandWire.Argument.Range
import CommandWire.Argument.SortOptions
import CommandWire.Argument.WeightedKeys
import CommandWire.Proofs.Codec.Tagged

/-!
# What tagged parts are read as

A map of parts need not be one that has been written here. Whatever there is under a tag, the codec
for the part finds a value or none (`TaggedParts.found?`), and there may be a fault
(`TaggedParts.fault?`). From these alone it can be said what becomes of the whole: the first fault,
in the order of the parts, or else the value that is made of what has been found. Nothing depends on
the other tags (`Codec.ReadsParts`, `Codec.tagged_arguments_follow_parts`).
-/

namespace CommandWire

/-! ### Faults in sequence -/

/-- The result is the fault, or the value if there is none. -/
def ComesTo {α : Type} (result : Except CodecError α) (fault? : Option CodecError) (value : α) :
    Prop :=
  result = fault?.elim (.ok value) .error

section ComesTo

variable {α β : Type} {result : Except CodecError α} {fault? fault'? : Option CodecError} {a : α}
  {b : β}

theorem pure_comesTo (a : α) : ComesTo (pure a) none a := rfl

/-- A fault of the first result comes before one of the second. -/
theorem ComesTo.bind {f : α → Except CodecError β} (h : ComesTo result fault? a)
    (hf : ComesTo (f a) fault'? b) : ComesTo (result >>= f) (fault?.or fault'?) b := by
  subst h
  cases fault? with
  | some failure => rfl
  | none => exact hf

/-- The last step only puts together what there is. -/
theorem ComesTo.bind_pure (f : α → β) (h : ComesTo result fault? a) :
    ComesTo (result >>= fun a => pure (f a)) fault? (f a) := by
  subst h
  cases fault? <;> rfl

/-- Where each item has a fault or a value, the list has the first fault or all the values. -/
theorem mapM_comesTo {f : α → Except CodecError β} {fault? : α → Option CodecError} {value : α → β}
    (h : ∀ a, ComesTo (f a) (fault? a) (value a)) (items : List α) :
    ComesTo (items.mapM f) (items.findSome? fault?) (items.map value) := by
  induction items with
  | nil => rfl
  | cons a items ih =>
    have hfirst : (a :: items).findSome? fault? = (fault? a).or (items.findSome? fault?) := by
      rw [← List.singleton_append, List.findSome?_append, List.findSome?_singleton]
    rw [List.mapM_cons, hfirst]
    exact (h a).bind (ih.bind_pure (value a :: ·))

end ComesTo

/-! ### One part -/

namespace TaggedParts

variable {α : Type} (parts : TaggedParts) (tag : String) (codec : Codec α)

/-- The value under a tag. There is none without the tag, and none if the codec answers that the
value is missing. -/
def found? : Option α :=
  match parts.get? tag with
  | none => none
  | some bytes =>
    match codec.decode (some bytes) with
    | .ok (.value value) => some value
    | .ok .absent | .ok .skipped | .error _ => none

/-- What is wrong with the bytes under a tag: the codec does not apply to them, or it fails. -/
def fault? : Option CodecError :=
  match parts.get? tag with
  | none => none
  | some bytes =>
    match codec.decode (some bytes) with
    | .ok (.value _) | .ok .absent => none
    | .ok .skipped => some (.notApplicable codec.name s!"tag `{tag}`")
    | .error failure => some failure

theorem decodePart_comesTo :
    ComesTo (parts.decodePart tag codec) (parts.fault? tag codec) (parts.found? tag codec) := by
  rw [decodePart, fault?, found?]
  cases parts.get? tag with
  | none => rfl
  | some bytes =>
    dsimp only
    cases codec.decode (some bytes) with
    | error failure => rfl
    | ok decoded => cases decoded <;> rfl

variable {parts tag} {others : TaggedParts}

theorem found?_congr (h : parts.get? tag = others.get? tag) :
    parts.found? tag codec = others.found? tag codec := by
  rw [found?, found?, h]

theorem fault?_congr (h : parts.get? tag = others.get? tag) :
    parts.fault? tag codec = others.fault? tag codec := by
  rw [fault?, fault?, h]

end TaggedParts

/-! ### All parts -/

/-- The codec decodes a map of parts, in whatever text, to the fault, or to the value if there is
none. Maps that have the same parts under these tags are decoded alike. -/
structure Codec.ReadsParts {α : Type} (codec : Codec α) (tags : List String)
    (fault? : TaggedParts → Option CodecError) (found : TaggedParts → α) : Prop where
  decode_eq : ∀ (bytes : Bytes) (parts : TaggedParts),
    (Codec.fallback TaggedParts).decode (some bytes) = .ok (.value parts) →
    codec.decode (some bytes) =
      match fault? parts with
      | some failure => .error failure
      | none => .ok (.value (found parts))
  decode_congr : ∀ (bytes otherBytes : Bytes) (parts others : TaggedParts),
    (Codec.fallback TaggedParts).decode (some bytes) = .ok (.value parts) →
    (Codec.fallback TaggedParts).decode (some otherBytes) = .ok (.value others) →
    (∀ tag ∈ tags, parts.get? tag = others.get? tag) →
    codec.decode (some bytes) = codec.decode (some otherBytes)

theorem ofJsonBytes_of_decode {α : Type} [Carriable α] {bytes : Bytes} {value : α}
    (h : (Codec.fallback α).decode (some bytes) = .ok (.value value)) :
    ofJsonBytes α bytes = .ok value := by
  replace h : (ofJsonBytes α bytes).map Decoded.value = .ok (.value value) := h
  cases hjson : ofJsonBytes α bytes with
  | error failure =>
    rw [hjson] at h
    cases h
  | ok back =>
    rw [hjson] at h
    cases h
    rfl

theorem Codec.ofTagged_readsParts {α : Type} {name : String}
    {toParts : α → Except CodecError TaggedParts} {ofParts : TaggedParts → Except CodecError α}
    {tags : List String} {fault? : TaggedParts → Option CodecError} {found : TaggedParts → α}
    (hof : ∀ parts, ComesTo (ofParts parts) (fault? parts) (found parts))
    (hcongr : ∀ parts others : TaggedParts, (∀ tag ∈ tags, parts.get? tag = others.get? tag) →
      fault? parts = fault? others ∧ found parts = found others) :
    (Codec.ofTagged name toParts ofParts).ReadsParts tags fault? found := by
  have hdecode : ∀ (bytes : Bytes) (parts : TaggedParts),
      (Codec.fallback TaggedParts).decode (some bytes) = .ok (.value parts) →
      (Codec.ofTagged name toParts ofParts).decode (some bytes) =
        match fault? parts with
        | some failure => .error failure
        | none => .ok (.value (found parts)) := by
    intro bytes parts hparts
    show Except.map _ (match ofJsonBytes TaggedParts bytes with | _ => _) = _
    rw [ofJsonBytes_of_decode hparts]
    dsimp only
    rw [hof parts]
    cases fault? parts <;> rfl
  refine ⟨hdecode, fun bytes otherBytes parts others hparts hothers hsame => ?_⟩
  obtain ⟨hfault, hfound⟩ := hcongr parts others hsame
  rw [hdecode bytes parts hparts, hdecode otherBytes others hothers, hfault, hfound]

/-! ### Places -/

namespace GeoLocation

def tags : List String := [nameTag, pointTag]

def fault? (parts : TaggedParts) : Option CodecError :=
  (parts.fault? nameTag Codec.string).or (parts.fault? pointTag Codec.point)

def found (parts : TaggedParts) : GeoLocation where
  name := parts.found? nameTag Codec.string
  point := parts.found? pointTag Codec.point

theorem ofParts_comesTo (parts : TaggedParts) :
    ComesTo (ofParts parts) (fault? parts) (found parts) :=
  (parts.decodePart_comesTo _ _).bind ((parts.decodePart_comesTo _ _).bind_pure _)

end GeoLocation

/-! ### Options for sorting -/

namespace SortOptions

def tags : List String := [orderTag, alphaTag, byTag, getTag, limitTag]

def fault? (parts : TaggedParts) : Option CodecError :=
  (parts.fault? orderTag (Codec.ordinal SortOrder)).or <|
  (parts.fault? alphaTag Codec.bool).or <|
  (parts.fault? byTag Codec.string).or <|
  (parts.fault? getTag (Codec.fallback (List String))).or <|
  parts.fault? limitTag Codec.limit

/-- Without its part the order by text is not wanted, and there are no patterns to answer with. -/
def found (parts : TaggedParts) : SortOptions where
  order := parts.found? orderTag (Codec.ordinal SortOrder)
  alpha := (parts.found? alphaTag Codec.bool).getD false
  byPattern := parts.found? byTag Codec.string
  getPatterns := (parts.found? getTag (Codec.fallback (List String))).getD []
  limit := parts.found? limitTag Codec.limit

theorem ofParts_comesTo (parts : TaggedParts) :
    ComesTo (ofParts parts) (fault? parts) (found parts) :=
  (parts.decodePart_comesTo _ _).bind <| (parts.decodePart_comesTo _ _).bind <|
    (parts.decodePart_comesTo _ _).bind <| (parts.decodePart_comesTo _ _).bind <|
      (parts.decodePart_comesTo _ _).bind_pure _

end SortOptions

/-! ### Weighted keys -/

namespace WeightedKeys

def tags : List String := [weightsTag, aggregateTag]

/-- What is wrong with the bytes of a weight: they are not eight. -/
def weightFault? : String × Bytes → Option CodecError
  | (key, bytes) =>
    if bytes.length = 8 then none
    else some (.notApplicable Codec.double.name s!"weight of `{key}`")

/-- The keys with the bytes of their weights. -/
def foundEntries (parts : TaggedParts) : List (String × Bytes) :=
  (parts.found? weightsTag (Codec.fallback (List (String × Bytes)))).getD []

def fault? (parts : TaggedParts) : Option CodecError :=
  (parts.fault? weightsTag (Codec.fallback (List (String × Bytes)))).or <|
  ((foundEntries parts).findSome? weightFault?).or <|
  parts.fault? aggregateTag (Codec.ordinal Aggregate)

def found (parts : TaggedParts) : WeightedKeys where
  weights := (foundEntries parts).map fun (key, bytes) => (key, ofDoubleBytes bytes)
  aggregate := parts.found? aggregateTag (Codec.ordinal Aggregate)

theorem weightOfBytes_comesTo (entry : String × Bytes) :
    ComesTo (weightOfBytes entry) (weightFault? entry) (entry.1, ofDoubleBytes entry.2) := by
  rw [weightOfBytes, weightFault?]
  split
  next => rfl
  next => rfl

theorem ofParts_comesTo (parts : TaggedParts) :
    ComesTo (ofParts parts) (fault? parts) (found parts) :=
  (parts.decodePart_comesTo _ _).bind <| (mapM_comesTo weightOfBytes_comesTo _).bind <|
    (parts.decodePart_comesTo _ _).bind_pure _

end WeightedKeys

/-! ### Ranges -/

section Range

variable {α : Type} (values : Codec α)

namespace Bound

/-- Only where there is a value the other part is looked at. -/
def fault? (tags : BoundTags) (parts : TaggedParts) : Option CodecError :=
  (parts.fault? tags.value values).or <|
  if (parts.found? tags.value values).isSome then parts.fault? tags.inclusive Codec.bool else none

def found (tags : BoundTags) (parts : TaggedParts) : Bound α :=
  match parts.found? tags.value values with
  | none => unbounded
  | some value => ⟨some value, (parts.found? tags.inclusive Codec.bool).getD true⟩

theorem decodeParts_comesTo (tags : BoundTags) (parts : TaggedParts) :
    ComesTo (decodeParts tags values parts) (fault? values tags parts)
      (found values tags parts) := by
  refine (parts.decodePart_comesTo tags.value values).bind ?_
  rw [found]
  cases parts.found? tags.value values with
  | none =>
    -- The other part is not decoded, and so cannot be at fault.
    exact pure_comesTo unbounded
  | some value =>
    have hof : ∀ inclusive, of (some value) inclusive = ⟨some value, inclusive⟩ := by
      intro inclusive
      rw [of, Option.isNone_some, Bool.or_false]
    dsimp only
    rw [← hof]
    exact (parts.decodePart_comesTo tags.inclusive Codec.bool).bind_pure _

end Bound

namespace Range

def tags : List String :=
  [lowerTags.value, lowerTags.inclusive, upperTags.value, upperTags.inclusive]

def fault? (parts : TaggedParts) : Option CodecError :=
  (Bound.fault? values lowerTags parts).or (Bound.fault? values upperTags parts)

def found (parts : TaggedParts) : Range α where
  lower := Bound.found values lowerTags parts
  upper := Bound.found values upperTags parts

theorem ofParts_comesTo (parts : TaggedParts) :
    ComesTo (ofParts values parts) (fault? values parts) (found values parts) :=
  (Bound.decodeParts_comesTo values lowerTags parts).bind
    ((Bound.decodeParts_comesTo values upperTags parts).bind_pure _)

end Range

end Range

/-! ### All of them -/

namespace Codec

open TaggedParts

theorem geoLocation_readsParts :
    geoLocation.ReadsParts GeoLocation.tags GeoLocation.fault? GeoLocation.found := by
  refine ofTagged_readsParts GeoLocation.ofParts_comesTo fun parts others h => ?_
  simp only [GeoLocation.tags, List.forall_mem_cons] at h
  obtain ⟨hname, hpoint, -⟩ := h
  simp only [GeoLocation.fault?, GeoLocation.found, fault?_congr _ hname, fault?_congr _ hpoint,
    found?_congr _ hname, found?_congr _ hpoint, and_self]

theorem sortOptions_readsParts :
    sortOptions.ReadsParts SortOptions.tags SortOptions.fault? SortOptions.found := by
  refine ofTagged_readsParts SortOptions.ofParts_comesTo fun parts others h => ?_
  simp only [SortOptions.tags, List.forall_mem_cons] at h
  obtain ⟨horder, halpha, hby, hget, hlimit, -⟩ := h
  simp only [SortOptions.fault?, SortOptions.found, fault?_congr _ horder, fault?_congr _ halpha,
    fault?_congr _ hby, fault?_congr _ hget, fault?_congr _ hlimit, found?_congr _ horder,
    found?_congr _ halpha, found?_congr _ hby, found?_congr _ hget, found?_congr _ hlimit, and_self]

theorem weightedKeys_readsParts :
    weightedKeys.ReadsParts WeightedKeys.tags WeightedKeys.fault? WeightedKeys.found := by
  refine ofTagged_readsParts WeightedKeys.ofParts_comesTo fun parts others h => ?_
  simp only [WeightedKeys.tags, List.forall_mem_cons] at h
  obtain ⟨hweights, haggregate, -⟩ := h
  simp only [WeightedKeys.fault?, WeightedKeys.found, WeightedKeys.foundEntries,
    fault?_congr _ hweights, fault?_congr _ haggregate, found?_congr _ hweights,
    found?_congr _ haggregate, and_self]

theorem range_readsParts {α : Type} (values : Codec α) :
    (range values).ReadsParts Range.tags (Range.fault? values) (Range.found values) := by
  refine ofTagged_readsParts (Range.ofParts_comesTo values) fun parts others h => ?_
  simp only [Range.tags, List.forall_mem_cons] at h
  obtain ⟨hlower, hlowerFlag, hupper, hupperFlag, -⟩ := h
  simp only [Range.fault?, Range.found, Bound.fault?, Bound.found, fault?_congr _ hlower,
    fault?_congr _ hlowerFlag, fault?_congr _ hupper, fault?_congr _ hupperFlag,
    found?_congr _ hlower, found?_congr _ hlowerFlag, found?_congr _ hupper,
    found?_congr _ hupperFlag, and_self]

/-- **What is decoded follows the parts and nothing else.** Every map of parts has a text, and the
codecs for places, options, weighted keys and ranges of anything decode each text of such a map to
the first fault in the order of the parts, or else to what the parts are found to be. -/
theorem tagged_arguments_follow_parts :
    (∀ parts : TaggedParts, ∃ bytes, bytes ≠ [] ∧
      (Codec.fallback TaggedParts).Carries parts bytes parts) ∧
    geoLocation.ReadsParts GeoLocation.tags GeoLocation.fault? GeoLocation.found ∧
    sortOptions.ReadsParts SortOptions.tags SortOptions.fault? SortOptions.found ∧
    weightedKeys.ReadsParts WeightedKeys.tags WeightedKeys.fault? WeightedKeys.found ∧
    ∀ {α : Type} (values : Codec α),
      (range values).ReadsParts Range.tags (Range.fault? values) (Range.found values) :=
  ⟨fun parts => fallback_carries parts.readsBack, geoLocation_readsParts, sortOptions_readsParts,
    weightedKeys_readsParts, range_readsParts⟩

/-- A flag that is no truth value is not looked at where there is no value. -/
example :
    Range.fault? Codec.long (TaggedParts.put .empty lowerTags.inclusive (some [7, 7])) = none :=
  rfl

end Codec

end CommandWire
