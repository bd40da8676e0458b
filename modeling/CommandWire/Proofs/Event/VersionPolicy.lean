import CommandWire.Proofs.Event.Damage
import CommandWire.Proofs.Event.History

/-!
# Frames of unknown version

Two event codecs that differ in nothing but what becomes of frames of unknown version differ on no
other frame. On a frame of unknown version the strict one fails with its first byte; the lenient one
reports that byte and then does what it would do if the byte were zero (`FollowsPolicy`). That there
is always a variant for zero is due to how an event codec is set up: from the one with the built-in
variants, by settings that are valid and variants that are filed under their tags (`WellBuilt`).
-/

namespace CommandWire

/-! ### What is reported on the way -/

namespace Workspace

/-- The workspace after some more reports. -/
def report (w : Workspace) (log : List LogEvent) : Workspace := { w with log := w.log ++ log }

/-- Between the two workspaces nothing but fallbacks has been reported. -/
def CachesTo (w w' : Workspace) : Prop := ∃ cached : List (String × String),
  w'.log = w.log ++ cached.map fun (type, codec) => .fallbackCached type codec

theorem CachesTo.of_log_eq {w w' : Workspace} (h : w'.log = w.log) : w.CachesTo w' :=
  ⟨[], by rw [h, List.map_nil, List.append_nil]⟩

theorem CachesTo.trans {w middle w' : Workspace} (h : w.CachesTo middle) (h' : middle.CachesTo w') :
    w.CachesTo w' := by
  obtain ⟨first, hfirst⟩ := h
  obtain ⟨second, hsecond⟩ := h'
  refine ⟨first ++ second, ?_⟩
  rw [hsecond, hfirst, List.map_append, List.append_assoc]

theorem lookup_cachesTo (w : Workspace) (type : ValueType) : w.CachesTo (w.lookup type).2 := by
  rw [lookup, Registry.lookup]
  split
  next => exact .of_log_eq (List.append_nil _)
  next => exact ⟨[(type.name, type.fallback.name)], rfl⟩

end Workspace

namespace EventCodec

/-- Decoding a block reports what the look-up of its codec does. -/
theorem decodeArgument_cachesTo (index : Nat) (p : Parameter) (unread : Bytes) (w : Workspace) :
    w.CachesTo (decodeArgument index p unread w).2 := by
  have looked : ∀ bytes,
      w.CachesTo ((w.lookup p.type).2.decode (w.lookup p.type).1 bytes).2 :=
    fun _ => (w.lookup_cachesTo p.type).trans (.of_log_eq rfl)
  rw [decodeArgument]
  split
  next => exact .of_log_eq rfl
  next => exact .of_log_eq rfl
  next bytes _ _ =>
    have h := looked bytes
    dsimp only
    split <;> next hd => rw [hd] at h; exact h

theorem decodeArguments_cachesTo (index : Nat) (parameters : List Parameter) (unread : Bytes)
    (w : Workspace) : w.CachesTo (decodeArguments index parameters unread w).2 := by
  induction parameters generalizing index unread w with
  | nil => exact .of_log_eq rfl
  | cons p parameters ih =>
    rw [decodeArguments]
    have hfirst := decodeArgument_cachesTo index p unread w
    split
    next hd =>
      rw [hd] at hfirst
      exact hfirst
    next middle after hd =>
      rw [hd] at hfirst
      have hothers := hfirst.trans (ih (index + 1) middle after)
      split <;> next ho => rw [ho] at hothers; exact hothers

section Variants

variable {c c' : EventCodec} {tag tag' : UInt8} {variant : Variant} {w w' : Workspace}

/-- Once there is a variant, only fallbacks are reported. -/
theorem decode_cachesTo (hv : (c.variantFor tag).1 = .ok variant) (body : Bytes) :
    (c.reported tag w).CachesTo (c.decode (tag :: body) w).2 := by
  rw [decode_of_variantFor hv]
  split
  next => exact .of_log_eq rfl
  next application m blocks _ =>
    have hargs := decodeArguments_cachesTo 0 m.parameters blocks (c.reported tag w)
    split
    next ho =>
      rw [ho] at hargs
      exact hargs
    next ho =>
      rw [ho] at hargs
      split <;> exact hargs

/-- What is decoded depends on the first byte by the variant for it and by what is reported. -/
theorem decode_eq_of_reported_eq (hmethods : c.methods = c'.methods)
    (hv : (c.variantFor tag).1 = .ok variant) (hv' : (c'.variantFor tag').1 = .ok variant)
    (hw : c.reported tag w = c'.reported tag' w') (body : Bytes) :
    c.decode (tag :: body) w = c'.decode (tag' :: body) w' := by
  have hhead : c.decodeHead variant = c'.decodeHead variant := by
    rw [decodeHead, decodeHead, hmethods]
  rw [decode_of_variantFor hv, decode_of_variantFor hv', hhead, hw]

/-- An event has the tag of the variant that has read it. -/
theorem version_of_decode_eq_ok (hv : (c.variantFor tag).1 = .ok variant) {body : Bytes}
    {e : CommandEvent AnyValue} (h : (c.decode (tag :: body) w).1 = .ok e) :
    e.version = some variant.tag := by
  rw [decode_of_variantFor hv] at h
  split at h
  next => cases h
  next =>
    split at h
    next => cases h
    next =>
      split at h
      next => cases h
      next =>
        cases h
        rfl

end Variants

/-! ### Setting up an event codec -/

/-- A step of setting up an event codec. -/
inductive Setting where
  | configure (config : EventConfig)
  | addVariant (variant : Variant)

/-- The event codec after the step, unless the settings are refused. -/
def Setting.apply (c : EventCodec) : Setting → Except CodecError EventCodec
  | configure config => c.configure config
  | addVariant variant => .ok (c.addVariant variant)

/-- The event codec that starts with the built-in variants and the default settings. -/
def setUp (methods : MethodDirectory) (settings : List Setting) : Except CodecError EventCodec :=
  settings.foldlM Setting.apply (new methods)

/-- What every step keeps. -/
structure WellBuilt (c : EventCodec) : Prop where
  /-- Every variant is filed under its own tag. -/
  filed : ∀ tag variant, c.variants.get? tag = some variant → variant.tag = tag
  /-- There is a variant for the default version. -/
  default : ∃ variant, c.variants.get? WireVersion.default.tag = some variant
  /-- Some argument has room in a block. -/
  room : c.config.maxArgumentLength ≠ 0

theorem wellBuilt_new (methods : MethodDirectory) : (new methods).WellBuilt where
  filed tag variant h := by
    rw [get?_variants_new, Option.map_eq_some_iff] at h
    obtain ⟨v, hv, rfl⟩ := h
    rw [WireVersion.tag_variant, ofTag?_eq_some_iff.1 hv]
  default := ⟨.named, rfl⟩
  room := show (255 : UInt8) ≠ 0 by decide

theorem WellBuilt.configure {c c' : EventCodec} (hc : c.WellBuilt) {config : EventConfig}
    (h : c.configure config = .ok c') : c'.WellBuilt := by
  rw [EventCodec.configure, EventConfig.validate] at h
  split at h
  next => cases h
  next hroom =>
    cases h
    exact ⟨hc.filed, hc.default, hroom⟩

theorem WellBuilt.addVariant {c : EventCodec} (hc : c.WellBuilt) (added : Variant) :
    (c.addVariant added).WellBuilt where
  filed tag variant h := by
    rw [EventCodec.addVariant, SortedMap.get?_insert] at h
    split at h
    next htag =>
      cases h
      exact htag
    next => exact hc.filed tag variant h
  default := by
    rw [EventCodec.addVariant, SortedMap.get?_insert]
    split
    next => exact ⟨added, rfl⟩
    next => exact hc.default
  room := hc.room

theorem WellBuilt.apply {c c' : EventCodec} (hc : c.WellBuilt) {setting : Setting}
    (h : setting.apply c = .ok c') : c'.WellBuilt := by
  cases setting with
  | configure config => exact hc.configure h
  | addVariant variant =>
    cases h
    exact hc.addVariant variant

/-- By induction on the settings. -/
theorem WellBuilt.foldlM {c c' : EventCodec} (hc : c.WellBuilt) {settings : List Setting}
    (h : settings.foldlM Setting.apply c = .ok c') : c'.WellBuilt := by
  induction settings generalizing c with
  | nil =>
    cases h
    exact hc
  | cons setting settings ih =>
    rw [List.foldlM_cons] at h
    cases hfirst : setting.apply c with
    | error failure =>
      rw [hfirst] at h
      cases h
    | ok middle =>
      rw [hfirst] at h
      exact ih (hc.apply hfirst) h

/-! ### The two policies -/

/-- The same event codec with another policy for frames of unknown version. -/
def withPolicy (c : EventCodec) (policy : UnknownVersionPolicy) : EventCodec :=
  { c with config := { c.config with unknownVersion := policy } }

section Policies

variable {c : EventCodec} {tag : UInt8}

theorem variantFor_of_registered {variant : Variant} (h : c.variants.get? tag = some variant)
    (policy : UnknownVersionPolicy) : (c.withPolicy policy).variantFor tag = (.ok variant, []) := by
  rw [variantFor, show (c.withPolicy policy).variants.get? tag = _ from h]

theorem variantFor_strict (h : c.variants.get? tag = none) :
    (c.withPolicy .strict).variantFor tag = (.error (.unsupportedVersion tag), []) := by
  rw [variantFor, show (c.withPolicy .strict).variants.get? tag = _ from h]
  rfl

/-- An unknown tag stands for zero, which has a variant, and is reported. -/
theorem WellBuilt.exists_variantFor_lenient (hc : c.WellBuilt) (h : c.variants.get? tag = none) :
    ∃ variant, variant.tag = 0 ∧
      (c.withPolicy .lenient).variantFor tag = (.ok variant, [.unknownVersion tag]) ∧
      (c.withPolicy .lenient).variantFor 0 = (.ok variant, []) := by
  obtain ⟨variant, hdefault⟩ := hc.default
  refine ⟨variant, hc.filed _ _ hdefault, ?_, variantFor_of_registered hdefault _⟩
  rw [variantFor, show (c.withPolicy .lenient).variants.get? tag = _ from h]
  dsimp only [withPolicy]
  rw [hdefault]

/-! ### Decoding with the two policies -/

theorem decode_strict_eq_lenient {variant : Variant} (h : c.variants.get? tag = some variant)
    (body : Bytes) (w : Workspace) :
    (c.withPolicy .strict).decode (tag :: body) w =
      (c.withPolicy .lenient).decode (tag :: body) w := by
  have hmethods : (c.withPolicy .strict).methods = (c.withPolicy .lenient).methods := rfl
  have hv := variantFor_of_registered h
  refine decode_eq_of_reported_eq hmethods (congrArg Prod.fst (hv _)) (congrArg Prod.fst (hv _))
    ?_ body
  rw [reported, reported, hv, hv]

theorem cachesTo_decode_registered {variant : Variant} (h : c.variants.get? tag = some variant)
    (policy : UnknownVersionPolicy) (body : Bytes) (w : Workspace) :
    w.CachesTo ((c.withPolicy policy).decode (tag :: body) w).2 := by
  have hv := variantFor_of_registered h policy
  have hcaches : (reported _ tag w).CachesTo _ := decode_cachesTo (congrArg Prod.fst hv) body
  rw [reported, hv, List.append_nil] at hcaches
  exact hcaches

theorem decode_strict_unknown (h : c.variants.get? tag = none) (body : Bytes) (w : Workspace) :
    (c.withPolicy .strict).decode (tag :: body) w = (.error (.unsupportedVersion tag), w) := by
  have hr : (FrameRead.byte "version").run (tag :: body) = (.ok tag, body) := rfl
  rw [decode, hr]
  dsimp only
  rw [variantFor_strict h, List.append_nil]

theorem WellBuilt.decode_lenient_unknown (hc : c.WellBuilt) (h : c.variants.get? tag = none)
    (body : Bytes) (w : Workspace) :
    (c.withPolicy .lenient).decode (tag :: body) w =
      (c.withPolicy .lenient).decode (0 :: body) (w.report [.unknownVersion tag]) := by
  obtain ⟨variant, _, hv, hzero⟩ := hc.exists_variantFor_lenient h
  refine decode_eq_of_reported_eq rfl (congrArg Prod.fst hv) (congrArg Prod.fst hzero) ?_ body
  rw [reported, reported, hv, hzero, List.append_nil]
  rfl

theorem WellBuilt.cachesTo_decode_unknown (hc : c.WellBuilt) (h : c.variants.get? tag = none)
    (body : Bytes) (w : Workspace) :
    (w.report [.unknownVersion tag]).CachesTo
      ((c.withPolicy .lenient).decode (tag :: body) w).2 := by
  obtain ⟨variant, _, hv, _⟩ := hc.exists_variantFor_lenient h
  have hcaches : (reported _ tag w).CachesTo _ := decode_cachesTo (congrArg Prod.fst hv) body
  rw [reported, hv] at hcaches
  exact hcaches

theorem WellBuilt.version_decode_unknown (hc : c.WellBuilt) (h : c.variants.get? tag = none)
    {body : Bytes} {w : Workspace} {e : CommandEvent AnyValue}
    (he : ((c.withPolicy .lenient).decode (tag :: body) w).1 = .ok e) :
    e.version = some 0 ∧ tag ≠ 0 := by
  obtain ⟨variant, htag, hv, _⟩ := hc.exists_variantFor_lenient h
  refine ⟨htag ▸ version_of_decode_eq_ok (congrArg Prod.fst hv) he, ?_⟩
  rintro rfl
  obtain ⟨_, hdefault⟩ := hc.default
  cases h.symm.trans hdefault

end Policies

/-- What the two policies for frames of unknown version do, and that they differ in nothing else. -/
structure FollowsPolicy (c : EventCodec) : Prop where
  /-- Frames without a first byte, or with that of a variant, are decoded alike, and nothing but
  fallbacks is reported. -/
  known : ∀ frame (w : Workspace), (∀ tag ∈ frame.head?, c.variants.get? tag ≠ none) →
    (c.withPolicy .strict).decode frame w = (c.withPolicy .lenient).decode frame w ∧
    w.CachesTo ((c.withPolicy .lenient).decode frame w).2
  strict : ∀ tag body (w : Workspace), c.variants.get? tag = none →
    (c.withPolicy .strict).decode (tag :: body) w = (.error (.unsupportedVersion tag), w)
  /-- After its report the lenient codec does what it does with a zero in front. -/
  lenient : ∀ tag body (w : Workspace), c.variants.get? tag = none →
    (c.withPolicy .lenient).decode (tag :: body) w =
      (c.withPolicy .lenient).decode (0 :: body) (w.report [.unknownVersion tag])
  /-- The report makes no difference to what is decoded. -/
  lenient_result : ∀ tag body (w : Workspace), c.variants.get? tag = none →
    ((c.withPolicy .lenient).decode (tag :: body) w).1 =
      ((c.withPolicy .lenient).decode (0 :: body) w).1
  lenient_reports : ∀ tag body (w : Workspace), c.variants.get? tag = none →
    (w.report [.unknownVersion tag]).CachesTo ((c.withPolicy .lenient).decode (tag :: body) w).2
  lenient_version : ∀ tag body (w : Workspace) e, c.variants.get? tag = none →
    ((c.withPolicy .lenient).decode (tag :: body) w).1 = .ok e → e.version = some 0 ∧ tag ≠ 0
  /-- The lenient codec has a variant for every first byte. -/
  lenient_variant : ∀ tag, ∃ variant,
    ((c.withPolicy .lenient).variantFor tag).1 = .ok variant

theorem WellBuilt.followsPolicy {c : EventCodec} (hc : c.WellBuilt) : c.FollowsPolicy where
  known := by
    intro frame w h
    cases frame with
    | nil => exact ⟨rfl, .of_log_eq rfl⟩
    | cons tag body =>
      obtain ⟨variant, hvariant⟩ := Option.ne_none_iff_exists'.1 (h tag rfl)
      exact ⟨decode_strict_eq_lenient hvariant body w,
        cachesTo_decode_registered hvariant _ body w⟩
  strict _ body w h := decode_strict_unknown h body w
  lenient _ body w h := hc.decode_lenient_unknown h body w
  lenient_result _ body w h := by
    rw [hc.decode_lenient_unknown h body w]
    exact decode_congr _ _ rfl
  lenient_reports _ body w h := hc.cachesTo_decode_unknown h body w
  lenient_version _ _ _ _ h he := hc.version_decode_unknown h he
  lenient_variant := by
    intro tag
    cases h : c.variants.get? tag with
    | none =>
      obtain ⟨variant, _, hv, _⟩ := hc.exists_variantFor_lenient h
      exact ⟨variant, congrArg Prod.fst hv⟩
    | some variant => exact ⟨variant, congrArg Prod.fst (variantFor_of_registered h _)⟩

/-- **Unknown versions follow the policy.** Let an event codec be set up in any steps, with any
variants. Of the two that it is with one policy and with the other, the strict one refuses the frames
with the first byte of no variant, the lenient one reports that byte and reads the frame as one of
the default version, and on all other frames they do the same. A variant for the default version is
always there, every variant is filed under its own tag, and blocks have room. -/
theorem unknown_versions_follow_policy {methods : MethodDirectory} {settings : List Setting}
    {c : EventCodec} (h : setUp methods settings = .ok c) : c.FollowsPolicy ∧ c.WellBuilt :=
  have hc := (wellBuilt_new methods).foldlM h
  ⟨hc.followsPolicy, hc⟩

/-- A variant with a tag of its own, another one in the place of the default variant, and settings
that tolerate unknown versions. -/
theorem unknown_versions_follow_policy_custom : ∃ c,
    setUp MethodTable.empty.directory
      [.addVariant { Variant.indexed with tag := 7 }, .configure ⟨.v1, .lenient, 16⟩,
        .addVariant { Variant.indexed with tag := 0 }] = .ok c ∧
    (c.variants.get? 7).isSome ∧ c.variants.get? 9 = none ∧ c.FollowsPolicy ∧ c.WellBuilt := by
  have h : setUp MethodTable.empty.directory
      [.addVariant { Variant.indexed with tag := 7 }, .configure ⟨.v1, .lenient, 16⟩,
        .addVariant { Variant.indexed with tag := 0 }] = .ok _ := rfl
  exact ⟨_, h, rfl, rfl, unknown_versions_follow_policy h⟩

end EventCodec

end CommandWire
