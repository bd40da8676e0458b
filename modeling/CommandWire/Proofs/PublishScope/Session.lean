import CommandWire.Proofs.PublishScope.Entries

/-!
# Sessions with a publish scope

A session is what callers hold together with a publish scope: handles to values, views on byte
buffers, and the scope with what it pins. In a step something new is made, a view is cut, handles
are dropped, or the scope is called or cleared (`Session.Step`). Addresses are used again as in any
memory: what is new may be placed anywhere but where something lies that is still held, be it by a
caller or by the scope.

The invariant is `Session.Sound`: what is held agrees on what lies at an address, and every entry of
the scope is justified. Every step keeps it (`Session.Sound.step`), and no step needs to know
whether a call has found an entry or not.
-/

namespace CommandWire

/-! ### Bytes in memory -/

namespace View

/-- The byte at an address, if the view covers it. -/
def byte? (v : View) (address : Nat) : Option UInt8 :=
  if v.address ≤ address then v.bytes[address - v.address]? else none

/-- The views see the same bytes where both see any. -/
def Agrees (u v : View) : Prop :=
  ∀ address b c, u.byte? address = some b → v.byte? address = some c → b = c

/-- The views have no byte in common. -/
def Apart (u v : View) : Prop := ∀ address, u.byte? address = none ∨ v.byte? address = none

theorem byte?_add (v : View) (i : Nat) : v.byte? (v.address + i) = v.bytes[i]? := by
  rw [byte?, if_pos (Nat.le_add_right ..), Nat.add_sub_cancel_left]

/-- A part of a view sees nothing else than the view. -/
theorem byte?_slice {v : View} {start stop address : Nat} {b : UInt8}
    (h : (v.slice start stop).byte? address = some b) : v.byte? address = some b := by
  rw [byte?] at h
  split at h
  next hle =>
    obtain ⟨i, rfl⟩ := Nat.exists_eq_add_of_le hle
    rw [show (v.slice start stop).address + i - (v.slice start stop).address = i by omega] at h
    rw [show (v.slice start stop).address + i = v.address + (start + i) by
      rw [← Nat.add_assoc]; rfl, byte?_add]
    have hb : ((v.bytes.take stop).drop start)[i]? = some b := h
    rw [List.getElem?_drop, List.getElem?_take] at hb
    split at hb
    next => exact hb
    next => cases hb
  next => cases h

theorem Agrees.refl (v : View) : v.Agrees v := by
  intro address b c hb hc
  rw [hb] at hc
  exact Option.some.inj hc

theorem Agrees.symm {u v : View} (h : u.Agrees v) : v.Agrees u :=
  fun address b c hb hc => (h address c b hc hb).symm

theorem Apart.agrees {u v : View} (h : u.Apart v) : u.Agrees v := by
  intro address b c hb hc
  rcases h address with hn | hn
  · rw [hn] at hb
    cases hb
  · rw [hn] at hc
    cases hc

/-- Views of the same length at the same address that agree have the same bytes. -/
theorem Agrees.bytes_eq {u v : View} (h : u.Agrees v) (haddress : u.address = v.address)
    (hlength : u.bytes.length = v.bytes.length) : u.bytes = v.bytes := by
  apply List.ext_getElem hlength
  intro i hu hv
  apply h (u.address + i)
  · rw [byte?_add, List.getElem?_eq_getElem hu]
  · rw [haddress, byte?_add, List.getElem?_eq_getElem hv]

end View

/-! ### Sessions -/

/-- What callers hold, and the publish scope. -/
structure Session where
  values : List (Shared AnyValue)
  views : List View
  scope : PublishScope

namespace Session

/-- Nothing is held. -/
def start : Session := ⟨[], [], .empty⟩

/-- A handle to the value is held by a caller or by the scope. -/
inductive Holds (s : Session) : Shared AnyValue → Prop
  | caller {value : Shared AnyValue} : value ∈ s.values → s.Holds value
  | encoded {entry : PublishScope.KnownEncoding} : entry ∈ s.scope.encoded → s.Holds entry.pinned
  | decoded {entry : PublishScope.KnownValue} {value : Shared AnyValue} :
      entry ∈ s.scope.decoded → entry.value = .value value → s.Holds value

/-- The view is held by a caller or by the scope. -/
inductive HoldsView (s : Session) : View → Prop
  | caller {view : View} : view ∈ s.views → s.HoldsView view
  | decoded {entry : PublishScope.KnownValue} : entry ∈ s.scope.decoded → s.HoldsView entry.pinned

/-- Who holds less of everything holds no more values. -/
theorem Holds.mono {s s' : Session} {value : Shared AnyValue} (h : s'.Holds value)
    (hvalues : s'.values ⊆ s.values) (hencoded : s'.scope.encoded ⊆ s.scope.encoded)
    (hdecoded : s'.scope.decoded ⊆ s.scope.decoded) : s.Holds value := by
  cases h with
  | caller h => exact .caller (hvalues h)
  | encoded h => exact .encoded (hencoded h)
  | decoded h hv => exact .decoded (hdecoded h) hv

theorem HoldsView.mono {s s' : Session} {view : View} (h : s'.HoldsView view)
    (hviews : s'.views ⊆ s.views) (hdecoded : s'.scope.decoded ⊆ s.scope.decoded) :
    s.HoldsView view := by
  cases h with
  | caller h => exact .caller (hviews h)
  | decoded h => exact .decoded (hdecoded h)

/-- A new value may be placed at the address. -/
def IsFree (s : Session) (address : Nat) : Prop := ∀ value, s.Holds value → value.address ≠ address

/-- A new buffer may be placed where the view lies. -/
def IsFreeView (s : Session) (view : View) : Prop := ∀ held, s.HoldsView held → held.Apart view

/-- After a decoding call the caller holds the value that came out of it, if one did. -/
def received (s : Session) (result : Except CodecError (Decoded (Shared AnyValue)))
    (scope : PublishScope) : Session :=
  match result with
  | .ok (.value value) => { s with values := value :: s.values, scope }
  | _ => { s with scope }

/-- One step of a session that uses certain codecs. Calls may hit or miss, succeed or fail. -/
inductive Step (codecs : ScopeCodec → Prop) : Session → Session → Prop
  /-- A value is made. -/
  | create {s : Session} (value : Shared AnyValue) : s.IsFree value.address →
      Step codecs s { s with values := value :: s.values }
  /-- A byte buffer is made. -/
  | allocate {s : Session} (view : View) : s.IsFreeView view →
      Step codecs s { s with views := view :: s.views }
  /-- A part of a buffer is taken, or the whole. -/
  | slice {s : Session} {view : View} (first last : Nat) : view ∈ s.views →
      Step codecs s { s with views := view.slice first last :: s.views }
  /-- Callers drop handles and keep others. -/
  | drop {s : Session} {values : List (Shared AnyValue)} {views : List View} :
      values ⊆ s.values → views ⊆ s.views → Step codecs s { s with values, views }
  | encode {s : Session} {α : Type} [Carriable α] {codec : Codec α} {value : Shared α} :
      codecs (.typed codec) → value.map AnyValue.of ∈ s.values →
      Step codecs s { s with scope := (s.scope.encode codec value).scope }
  | encodeAny {s : Session} {codec : AnyCodec} {value : Shared AnyValue} :
      codecs (.any codec) → value ∈ s.values →
      Step codecs s { s with scope := (s.scope.encodeAny codec value).scope }
  | decode {s : Session} {α : Type} [Carriable α] {codec : Codec α} {view : View} {address : Nat} :
      codecs (.typed codec) → view ∈ s.views → s.IsFree address →
      Step codecs s (s.received
        ((s.scope.decode codec view address).result.map (·.map (·.map AnyValue.of)))
        (s.scope.decode codec view address).scope)
  | decodeAny {s : Session} {codec : AnyCodec} {view : View} {address : Nat} :
      codecs (.any codec) → view ∈ s.views → s.IsFree address →
      Step codecs s (s.received (s.scope.decodeAny codec view address).result
        (s.scope.decodeAny codec view address).scope)
  | clear {s : Session} : Step codecs s { s with scope := .empty }

/-- The sessions that some steps lead to. -/
inductive Reachable (codecs : ScopeCodec → Prop) : Session → Prop
  | start : Reachable codecs start
  | step {s s' : Session} : Reachable codecs s → Step codecs s s' → Reachable codecs s'

/-! ### The invariant -/

/-- What is held agrees on memory, and what is remembered has been answered. -/
structure Sound (codecs : ScopeCodec → Prop) (s : Session) : Prop where
  values_agree : ∀ u v, s.Holds u → s.Holds v → u.address = v.address → u = v
  views_agree : ∀ u v, s.HoldsView u → s.HoldsView v → u.Agrees v
  encoded_justified : ∀ entry ∈ s.scope.encoded, entry.Justified codecs
  decoded_justified : ∀ entry ∈ s.scope.decoded, entry.Justified codecs

theorem not_holds_start (value : Shared AnyValue) : ¬ start.Holds value := by
  intro h
  cases h with
  | caller h => cases h
  | encoded h => cases h
  | decoded h => cases h

theorem not_holdsView_start (view : View) : ¬ start.HoldsView view := by
  intro h
  cases h with
  | caller h => cases h
  | decoded h => cases h

theorem sound_start (codecs : ScopeCodec → Prop) : start.Sound codecs where
  values_agree u _ hu := absurd hu (not_holds_start u)
  views_agree u _ hu := absurd hu (not_holdsView_start u)
  encoded_justified _ h := nomatch h
  decoded_justified _ h := nomatch h

namespace Sound

variable {codecs : ScopeCodec → Prop} {codec : ScopeCodec} {s s' : Session}

/-- A new value at a free address does no harm. (What is new is a predicate, because a call need not
make a value.) -/
theorem values_agree_of_isFree (hs : s.Sound codecs) (new : Shared AnyValue → Prop)
    (hone : ∀ u v, new u → new v → u = v) (hfree : ∀ value, new value → s.IsFree value.address)
    (h : ∀ value, s'.Holds value → new value ∨ s.Holds value) :
    ∀ u v, s'.Holds u → s'.Holds v → u.address = v.address → u = v := by
  intro u v hu hv haddress
  rcases h u hu with hu | hu <;> rcases h v hv with hv' | hv'
  · exact hone u v hu hv'
  · exact absurd haddress.symm (hfree u hu v hv')
  · exact absurd haddress (hfree v hv' u hu)
  · exact hs.values_agree u v hu hv' haddress

/-- One new view that agrees with those that are held does no harm. -/
theorem views_agree_of_agrees (hs : s.Sound codecs) {new : View}
    (hnew : ∀ held, s.HoldsView held → held.Agrees new)
    (h : ∀ view, s'.HoldsView view → view = new ∨ s.HoldsView view) :
    ∀ u v, s'.HoldsView u → s'.HoldsView v → u.Agrees v := by
  intro u v hu hv
  rcases h u hu with rfl | hu <;> rcases h v hv with rfl | hv
  · exact .refl _
  · exact (hnew v hv).symm
  · exact hnew u hu
  · exact hs.views_agree u v hu hv

/-- A session is sound if a sound one holds all that it holds. -/
theorem of_holds (hs : s.Sound codecs) (hvalues : ∀ value, s'.Holds value → s.Holds value)
    (hviews : ∀ view, s'.HoldsView view → s.HoldsView view)
    (hencoded : ∀ entry ∈ s'.scope.encoded, entry.Justified codecs)
    (hdecoded : ∀ entry ∈ s'.scope.decoded, entry.Justified codecs) : s'.Sound codecs where
  values_agree u v hu hv := hs.values_agree u v (hvalues u hu) (hvalues v hv)
  views_agree u v hu hv := hs.views_agree u v (hviews u hu) (hviews v hv)
  encoded_justified := hencoded
  decoded_justified := hdecoded

/-! ### Steps of callers -/

theorem create (hs : s.Sound codecs) {value : Shared AnyValue} (hfree : s.IsFree value.address) :
    Sound codecs { s with values := value :: s.values } where
  values_agree := by
    apply hs.values_agree_of_isFree (· = value)
    · intro u v hu hv
      rw [hu, hv]
    · intro v hv
      rw [hv]
      exact hfree
    · intro v hv
      cases hv with
      | caller h =>
        rcases List.mem_cons.1 h with rfl | h
        · exact .inl rfl
        · exact .inr (.caller h)
      | encoded h => exact .inr (.encoded h)
      | decoded h hv => exact .inr (.decoded h hv)
  views_agree := by
    intro u v hu hv
    apply hs.views_agree u v
    · exact hu.mono (List.Subset.refl _) (List.Subset.refl _)
    · exact hv.mono (List.Subset.refl _) (List.Subset.refl _)
  encoded_justified := hs.encoded_justified
  decoded_justified := hs.decoded_justified

/-- A view may be added that agrees with those that are held. -/
theorem addView (hs : s.Sound codecs) {view : View}
    (hview : ∀ held, s.HoldsView held → held.Agrees view) :
    Sound codecs { s with views := view :: s.views } where
  values_agree := by
    intro u v hu hv
    apply hs.values_agree u v
    · exact hu.mono (List.Subset.refl _) (List.Subset.refl _) (List.Subset.refl _)
    · exact hv.mono (List.Subset.refl _) (List.Subset.refl _) (List.Subset.refl _)
  views_agree := by
    apply hs.views_agree_of_agrees hview
    intro v hv
    cases hv with
    | caller h =>
      rcases List.mem_cons.1 h with rfl | h
      · exact .inl rfl
      · exact .inr (.caller h)
    | decoded h => exact .inr (.decoded h)
  encoded_justified := hs.encoded_justified
  decoded_justified := hs.decoded_justified

theorem drop (hs : s.Sound codecs) {values : List (Shared AnyValue)} {views : List View}
    (hvalues : values ⊆ s.values) (hviews : views ⊆ s.views) :
    Sound codecs { s with values, views } := by
  refine hs.of_holds ?_ ?_ hs.encoded_justified hs.decoded_justified
  · intro v hv
    exact hv.mono hvalues (List.Subset.refl _) (List.Subset.refl _)
  · intro v hv
    exact hv.mono hviews (List.Subset.refl _)

theorem clear (hs : s.Sound codecs) : Sound codecs { s with scope := .empty } := by
  apply hs.of_holds
  · intro v hv
    exact hv.mono (List.Subset.refl _) (List.nil_subset _) (List.nil_subset _)
  · intro v hv
    exact hv.mono (List.Subset.refl _) (List.nil_subset _)
  · intro entry h
    cases h
  · intro entry h
    cases h

/-! ### Calls -/

/-- An encoding call about a value that a caller holds. -/
theorem encodeOnce (hs : s.Sound codecs) (hcodec : codecs codec) {type : ValueType}
    {value : Shared AnyValue} (hvalue : value ∈ s.values)
    {compute : Unit → Except CodecError (Option Bytes)}
    (hcompute : codec.Encodes value.value (compute ())) :
    Sound codecs { s with
      scope := (s.scope.encodeOnce ⟨value.address, type, codec.id⟩ value compute).scope } := by
  have hdecoded := s.scope.decoded_encodeOnce ⟨value.address, type, codec.id⟩ value compute
  apply hs.of_holds
  · intro v hv
    cases hv with
    | caller h => exact .caller h
    | encoded h =>
      rcases PublishScope.mem_encoded_encodeOnce h with h | ⟨_, hpinned, _⟩
      · exact .encoded h
      · rw [hpinned]
        exact .caller hvalue
    | decoded h hv =>
      rw [hdecoded] at h
      exact .decoded h hv
  · intro v hv
    exact hv.mono (List.Subset.refl _) (by rw [hdecoded]; exact List.Subset.refl _)
  · intro entry h
    rcases PublishScope.mem_encoded_encodeOnce h with h | ⟨hkey, hpinned, hbytes⟩
    · exact hs.encoded_justified entry h
    · rw [hbytes] at hcompute
      exact ⟨by rw [hkey, hpinned], codec, hcodec, by rw [hkey], by rwa [hpinned]⟩
  · intro entry h
    rw [hdecoded] at h
    exact hs.decoded_justified entry h

/-- A decoding call about a view that a caller holds. -/
theorem decodeOnce (hs : s.Sound codecs) (hcodec : codecs codec) {view : View}
    (hview : view ∈ s.views) {address : Nat} (hfree : s.IsFree address) :
    Sound codecs { s with
      scope := (s.scope.decodeOnce ⟨view.address, view.bytes.length, codec.id⟩ view address
        fun _ => codec.decode view.bytes).scope } where
  values_agree := by
    -- If the codec is asked and finds a value, then this value is new; otherwise nothing is.
    apply hs.values_agree_of_isFree fun v =>
      ∃ value, codec.decode view.bytes = .ok (.value value) ∧ v = ⟨address, value⟩
    · intro u v hu hv
      obtain ⟨x, hx, rfl⟩ := hu
      obtain ⟨y, hy, rfl⟩ := hv
      rw [hx] at hy
      cases hy
      rfl
    · intro v hv
      obtain ⟨_, _, rfl⟩ := hv
      exact hfree
    · intro v hv
      cases hv with
      | caller h => exact .inr (.caller h)
      | encoded h =>
        rw [PublishScope.encoded_decodeOnce] at h
        exact .inr (.encoded h)
      | decoded h hv =>
        rcases PublishScope.mem_decoded_decodeOnce h with h | ⟨_, _, decoded, hd, hvalue⟩
        · exact .inr (.decoded h hv)
        · rw [hvalue] at hv
          cases decoded with
          | value x =>
            cases hv
            exact .inl ⟨x, hd, rfl⟩
          | absent => cases hv
          | skipped => cases hv
  views_agree := by
    have old : ∀ v, HoldsView { s with
        scope := (s.scope.decodeOnce ⟨view.address, view.bytes.length, codec.id⟩ view address
          fun _ => codec.decode view.bytes).scope } v → s.HoldsView v := by
      intro v hv
      cases hv with
      | caller h => exact .caller h
      | decoded h =>
        rcases PublishScope.mem_decoded_decodeOnce h with h | ⟨_, hpinned, _⟩
        · exact .decoded h
        · rw [hpinned]
          exact .caller hview
    intro u v hu hv
    exact hs.views_agree u v (old u hu) (old v hv)
  encoded_justified := by
    intro entry h
    rw [PublishScope.encoded_decodeOnce] at h
    exact hs.encoded_justified entry h
  decoded_justified := by
    intro entry h
    rcases PublishScope.mem_decoded_decodeOnce h with h | ⟨hkey, hpinned, decoded, hd, hvalue⟩
    · exact hs.decoded_justified entry h
    · refine ⟨by rw [hkey, hpinned], by rw [hkey, hpinned], codec, hcodec, by rw [hkey], ?_⟩
      rw [hpinned, hvalue, hd, Decoded.map_map]
      exact congrArg Except.ok decoded.map_id.symm

/-- A caller may receive what the scope holds anyway. -/
theorem received {scope : PublishScope} (hs : Sound codecs { s with scope })
    {result : Except CodecError (Decoded (Shared AnyValue))}
    (hresult : ∀ value, result = .ok (.value value) →
      ∃ entry ∈ scope.decoded, entry.value = .value value) :
    Sound codecs (s.received result scope) := by
  unfold Session.received
  split
  next value =>
    obtain ⟨entry, hentry, hvalue⟩ := hresult value rfl
    refine hs.of_holds ?_ ?_ hs.encoded_justified hs.decoded_justified
    · intro v hv
      cases hv with
      | caller h =>
        rcases List.mem_cons.1 h with rfl | h
        · exact .decoded hentry hvalue
        · exact .caller h
      | encoded h => exact .encoded h
      | decoded h hv => exact .decoded h hv
    · intro v hv
      exact hv.mono (List.Subset.refl _) (List.Subset.refl _)
  next => exact hs

end Sound

/-- Every step keeps the invariant. -/
theorem Sound.step {codecs : ScopeCodec → Prop} {s s' : Session} (hs : s.Sound codecs)
    (h : Step codecs s s') : s'.Sound codecs := by
  cases h with
  | create value hfree => exact hs.create hfree
  | allocate view hfree => exact hs.addView fun held h => (hfree held h).agrees
  | slice first last hview =>
    refine hs.addView fun held h address b c hb hc => ?_
    exact hs.views_agree held _ h (.caller hview) address b c hb (View.byte?_slice hc)
  | drop hvalues hviews => exact hs.drop hvalues hviews
  | @encode α _ codec value hcodec hvalue =>
    exact hs.encodeOnce hcodec hvalue (.typed codec value.value)
  | @encodeAny codec value hcodec hvalue =>
    exact hs.encodeOnce hcodec hvalue (.any codec value.value)
  | @decode α _ codec view address hcodec hview hfree =>
    refine (hs.decodeOnce hcodec hview hfree).received fun any hany => ?_
    cases hr : (s.scope.decode codec view address).result with
    | error failure =>
      rw [hr] at hany
      cases hany
    | ok decoded =>
      rw [hr] at hany
      cases decoded with
      | value value =>
        cases hany
        exact PublishScope.mem_decoded_of_result_decodeOnce
          (PublishScope.result_decodeOnce_of_decode hr)
      | absent => cases hany
      | skipped => cases hany
  | decodeAny hcodec hview hfree =>
    refine (hs.decodeOnce hcodec hview hfree).received fun value hvalue => ?_
    exact PublishScope.mem_decoded_of_result_decodeOnce hvalue
  | clear => exact hs.clear

theorem Reachable.sound {codecs : ScopeCodec → Prop} {s : Session} (h : Reachable codecs s) :
    s.Sound codecs := by
  induction h with
  | start => exact sound_start codecs
  | step _ hstep ih => exact ih.step hstep

end Session

end CommandWire
