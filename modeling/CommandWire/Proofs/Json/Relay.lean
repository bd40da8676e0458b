import CommandWire.Proofs.Json.ReadBack

/-!
# Values that have been read

A value without doubles that was read from any text, however it was laid out, is written so that it
is read back as itself (`readsBack_of_read`): it nests no deeper than was allowed, a name is the
first of its kind, and an option that has read something holds nothing that is written as `null`,
because `null` would have been read as nothing. The names of fields must be distinct: a record with
two fields of one name can be read from an array, but not from the object that it is written as.

`Reader.Yields` says what all values of a reader have in common, whatever the text.
-/

namespace CommandWire

mutual

/-- Somewhere in the values of the shape there may be a double. -/
def Shape.hasDouble : Shape → Bool
  | .double => true
  | .tuple fields | .record fields => fields.hasDouble
  | .list item | .map item | .option item => item.hasDouble
  | .bool | .integer _ | .char | .text | .unit | .variants _ | .nest => false

def Fields.hasDouble : Fields → Bool
  | .nil => false
  | .cons _ shape rest => shape.hasDouble || rest.hasDouble

end

namespace Json

namespace Reader

variable {α β σ : Type}

/-- Whatever the reader takes, it takes for a value with this property. -/
def Yields (r : Reader α) (p : α → Prop) : Prop :=
  ∀ input value rest, r.run input = .ok (value, rest) → p value

variable {r : Reader α} {p : α → Prop} {q : β → Prop}

theorem Yields.mono {p' : α → Prop} (h : r.Yields p) (himp : ∀ a, p a → p' a) : r.Yields p' :=
  fun input value rest hrun => himp _ (h input value rest hrun)

theorem refuse_yields (reason : Bytes → Failure) (p : α → Prop) : (refuse reason).Yields p := by
  intro input value rest h
  cases h

theorem Yields.refine (h : r.Yields p) {f : α → Option β} (hf : ∀ a b, p a → f a = some b → q b) :
    (r.refine f).Yields q := by
  intro input value rest hrun
  obtain ⟨a, ha, hvalue⟩ := run_refine_eq_ok_iff.1 hrun
  exact hf _ _ (h _ _ _ ha) hvalue

theorem Yields.map (h : r.Yields p) {f : α → β} (hf : ∀ a, p a → q (f a)) : (r.map f).Yields q :=
  h.refine fun a b ha hb => by
    cases hb
    exact hf a ha

theorem trivial_yields (r : Reader α) : r.Yields fun _ => True :=
  fun _ _ _ _ => trivial

theorem isBlank_of_skipBlanks {input rest : Bytes} {b : UInt8} (h : skipBlanks input = b :: rest) :
    isBlank b = false := by
  have := List.head?_dropWhile_not isBlank input
  rw [skipBlanks] at h
  rw [h] at this
  simpa using this

theorem byFirst_yields {choose : UInt8 → Reader α} (h : ∀ b, (choose b).Yields p) :
    (byFirst choose).Yields p := by
  intro input value rest hrun
  obtain ⟨b, more, -, hrun⟩ := run_byFirst_eq_ok_iff.1 hrun
  exact h b _ _ _ hrun

theorem ite_yields {c : Prop} [Decidable c] {s : Reader α} (hr : r.Yields p) (hs : s.Yields p) :
    (if c then r else s).Yields p := by
  split
  next => exact hr
  next => exact hs

theorem enter_yields {inner : Nat → Reader α} {p : Nat → α → Prop}
    (h : ∀ depth, (inner depth).Yields (p depth)) (depth : Nat) :
    (enter inner depth).Yields fun a => ∃ d, depth = d + 1 ∧ p d a := by
  intro input value rest hrun
  cases depth with
  | zero => cases hrun
  | succ depth =>
    cases input with
    | nil => cases hrun
    | cons b input => exact ⟨depth, rfl, h depth input value rest hrun⟩

theorem word_yields (more : String) {value : α} (h : p value) : (word more value).Yields p := by
  intro input value' rest hrun
  cases input with
  | nil => cases hrun
  | cons b input =>
    replace hrun : (expect (Bytes.ofText more) input).map (fun rest => (value, rest)) =
      .ok (value', rest) := hrun
    cases hexpect : expect (Bytes.ofText more) input with
    | error failure =>
      rw [hexpect] at hrun
      cases hrun
    | ok rest =>
      rw [hexpect] at hrun
      cases hrun
      exact h

theorem mismatch_yields (p : α → Prop) : mismatch.Yields p :=
  refuse_yields wrongKind p

/-! ### Arrays -/

theorem runItems_yields {item : Reader α} (h : item.Yields p) (first : Bool) (input : Bytes) :
    ∀ values rest, runItems item first input = .ok (values, rest) → ∀ a ∈ values, p a := by
  fun_induction runItems item first input with
  | case1 | case3 | case4 => nofun
  | case2 =>
    intro values rest hrun
    cases hrun
    nofun
  | case5 first input text hnext value more hrun values rest hmore ih =>
    intro values' rest' hvalues
    cases hvalues
    exact List.forall_mem_cons.2 ⟨h _ _ _ hrun, ih _ _ hmore⟩

theorem items_yields {item : Reader α} (h : item.Yields p) :
    (items item).Yields fun values => ∀ a ∈ values, p a :=
  runItems_yields h true

theorem itemThen_yields {item : Reader α} {others : Reader β} (h : item.Yields p)
    (hothers : others.Yields q) (first : Bool) :
    (itemThen first none item others).Yields fun pair => p pair.1 ∧ q pair.2 := by
  rintro input ⟨value, values⟩ rest hrun
  obtain ⟨text, more, -, hvalue, hvalues⟩ := run_itemThen_eq_ok_iff.1 hrun
  exact ⟨h _ _ _ hvalue, hothers _ _ _ hvalues⟩

theorem array_yields {inner : Nat → Reader α} {p : Nat → α → Prop}
    (h : ∀ depth, (inner depth).Yields (p depth)) (depth : Nat) :
    (array inner depth).Yields fun a => ∃ d, depth = d + 1 ∧ p d a :=
  byFirst_yields fun _ => ite_yields (enter_yields h depth) (mismatch_yields _)

/-! ### Objects -/

/-- What each member keeps, the whole object keeps. -/
theorem members_yields {member? : σ → String → Option (Reader (σ → σ))} (inv : σ → Prop)
    (h : ∀ state key r, inv state → member? state key = some r →
      r.Yields fun update => inv (update state)) {state : σ} (hstate : inv state) :
    (members member? state).Yields inv := by
  intro input result rest hrun
  replace hrun : runMembers member? true state input = .ok (result, rest) := hrun
  generalize true = first at hrun
  fun_induction runMembers member? first state input with
  | case1 | case3 | case4 | case5 => cases hrun
  | case2 =>
    cases hrun
    exact hstate
  | case6 first state input key more hnext r hmember text hcolon update next hupdate ih =>
    exact ih (h state key r hstate hmember _ _ _ hupdate) hrun

/-- A member that is taken once keeps what each known member keeps; the others change nothing. -/
theorem once_yields {member? : String → Option (Member σ)} {inv : σ → Prop} {state : σ}
    {key : String} {r : Reader (σ → σ)} (h : once member? (some ignored) state key = some r)
    (hknown : ∀ m, member? key = some m →
      m.value.Yields fun update => ∀ state, inv state → inv (update state)) :
    r.Yields fun update => ∀ state, inv state → inv (update state) := by
  cases hm : member? key with
  | none =>
    rw [once_of_none hm] at h
    cases h
    exact (trivial_yields skipped).map fun _ _ _ hstate => hstate
  | some m =>
    cases hfilled : m.filled state with
    | true =>
      rw [once_of_filled hm hfilled] at h
      cases h
    | false =>
      rw [once_of_not_filled hm hfilled] at h
      cases h
      exact hknown m hm

theorem dictionary_yields {item : Nat → Reader α} {p : Nat → α → Prop}
    (h : ∀ depth, (item depth).Yields (p depth)) (depth : Nat) :
    (dictionary item depth).Yields fun m => ∃ d, depth = d + 1 ∧ ∀ e ∈ m.entries, p d e.2 := by
  refine byFirst_yields fun _ => ite_yields (enter_yields (fun d => ?_) depth) (mismatch_yields _)
  refine members_yields (fun m => ∀ e ∈ SortedMap.entries m, p d e.2) ?_ (by nofun)
  intro m key r hm hr
  cases hr
  refine (h d).map fun value hvalue e he => ?_
  obtain rfl | he := SortedMap.mem_insertEntry he
  · exact hvalue
  · exact hm e he

theorem record_yields {items members : Nat → Reader α} {p : Nat → α → Prop}
    (hitems : ∀ depth, (items depth).Yields (p depth))
    (hmembers : ∀ depth, (members depth).Yields (p depth)) (depth : Nat) :
    (record items members depth).Yields fun a => ∃ d, depth = d + 1 ∧ p d a :=
  byFirst_yields fun _ => ite_yields (enter_yields hitems depth)
    (ite_yields (enter_yields hmembers depth) (mismatch_yields _))

theorem followedBy_yields (h : r.Yields p) (next : Bytes → Except Failure Bytes)
    (le : ∀ {input rest}, next input = .ok rest → rest.length ≤ input.length) :
    (r.followedBy next le).Yields p := by
  intro input value rest hrun
  obtain ⟨more, hvalue, -⟩ := run_followedBy_eq_ok_iff.1 hrun
  exact h _ _ _ hvalue

theorem variant_yields {value? : String → Option α} (h : ∀ text a, value? text = some a → p a)
    (depth : Nat) : (variant value? depth).Yields p := by
  have hquoted : (quoted.refine value?).Yields p :=
    (trivial_yields quoted).refine fun text a _ ha => h text a ha
  have hname : ((byFirst fun _ => key).refine value?).Yields p :=
    (trivial_yields _).refine fun text a _ ha => h text a ha
  have hcolon := followedBy_yields hname readColon fun h => Nat.le_of_lt (length_lt_of_readColon h)
  have hnull := followedBy_yields hcolon readNull length_le_of_readNull
  have hvariant : (variantKey value?).Yields p :=
    followedBy_yields hnull closeObject length_le_of_closeObject
  refine byFirst_yields fun _ => ite_yields hquoted (ite_yields ?_ (refuse_yields _ _))
  refine (enter_yields (fun _ => hvariant) depth).mono ?_
  rintro a ⟨d, -, ha⟩
  exact ha

end Reader

/-! ### Values -/

open Reader

theorem finIdxOf?_get {names : List String} {text : String} {i : Fin names.length}
    (h : names.finIdxOf? text = some i) : names.finIdxOf? (names.get i) = some i := by
  have htext : names.get i = text := by
    rw [List.finIdxOf?_eq_some_iff] at h
    exact h.1
  rw [htext, h]

theorem nest_yields (depth : Nat) : (Reader.nest depth).Yields fun n => n.height < depth := by
  induction depth with
  | zero => exact byFirst_yields fun _ => ite_yields (refuse_yields _ _) (mismatch_yields _)
  | succ depth ih =>
    refine byFirst_yields fun _ => ite_yields ?_ (mismatch_yields _)
    have hitems (le) : (afterFirst (items (Reader.nest depth)).run le).Yields
        fun items => ∀ n ∈ items, n.height < depth := by
      intro input items rest hrun
      cases input with
      | nil => cases hrun
      | cons b input => exact items_yields ih input items rest hrun
    refine (hitems _).map fun items h => (Nest.height_lt_succ_iff _ _).2 ?_
    rwa [Nest.toList_ofList]

/-- What is read where there is no `null` is not written as `null`. -/
theorem not_isNull_of_run (shape : Shape) (hdouble : shape.hasDouble = false) (depth : Nat)
    {b : UInt8} (hblank : isBlank b = false) (hb : b ≠ ascii 'n') {input rest : Bytes}
    {value : shape.Data} (h : (reader shape depth).run (b :: input) = .ok (value, rest)) :
    ¬ IsNull shape value := by
  cases shape with
  | double => cases hdouble
  | unit =>
    have hrun := run_byFirst_cons (fun b => if b = ascii 'n' then word "ull" () else mismatch)
      hblank input
    rw [if_neg hb] at hrun
    cases hrun.symm.trans h
  | option item =>
    have hrun := run_byFirst_cons (fun b => if b = ascii 'n' then word "ull" none else
      (reader item depth).map some) hblank input
    rw [if_neg hb, run_map] at hrun
    replace h := hrun.symm.trans h
    cases hitem : (reader item depth).run (b :: input) with
    | error failure =>
      rw [hitem] at h
      cases h
    | ok result =>
      rw [hitem] at h
      cases h
      exact not_isNull_of_run item hdouble depth hblank hb hitem
  | _ => exact id

/-- What an option holds was not `null`, so it is not lost when it is written. -/
theorem option_yields (item : Shape) (hdouble : item.hasDouble = false) {depth : Nat}
    (h : (reader item depth).Yields fun v => ReadsBack item depth v v) :
    (reader (.option item) depth).Yields fun v => ReadsBack (.option item) depth v v := by
  intro input value rest hrun
  -- Blanks are skipped, so it is the first other byte that tells `null` from a value.
  obtain ⟨b, more, hskip, hrun⟩ := run_byFirst_eq_ok_iff.1 hrun
  have hblank := isBlank_of_skipBlanks hskip
  by_cases hb : b = ascii 'n'
  · rw [if_pos hb] at hrun
    have hnone : ReadsBack (.option item) depth (none : Option item.Data)
      (none : Option item.Data) := rfl
    exact word_yields (p := fun v => ReadsBack (.option item) depth v v) "ull" hnone _ _ _ hrun
  · rw [if_neg hb, run_map] at hrun
    cases hitem : (reader item depth).run (b :: more) with
    | error failure =>
      rw [hitem] at hrun
      cases hrun
    | ok result =>
      rw [hitem] at hrun
      cases hrun
      have hnull := not_isNull_of_run item hdouble depth hblank hb hitem
      rw [readsBack_some_of_not_isNull depth _ hnull]
      exact ⟨_, h _ _ _ hitem, rfl⟩

/-- Each value that some of the fields have is read back as itself. -/
def SlotsReadBack : (fields : Fields) → (depth : Nat) → fields.Slots → Prop
  | .nil, _, _ => True
  | .cons _ shape rest, depth, slots =>
    (∀ value, slots.1 = some value → ReadsBack shape depth value value) ∧
      SlotsReadBack rest depth slots.2

theorem slotsReadBack_noSlots (fields : Fields) (depth : Nat) :
    SlotsReadBack fields depth fields.noSlots := by
  cases fields with
  | nil => trivial
  | cons name shape rest => exact ⟨nofun, slotsReadBack_noSlots rest depth⟩

/-- A field without a value is completed only where nothing stands for it. -/
theorem readsBack_of_complete? (fields : Fields) (depth : Nat) {slots : fields.Slots}
    (hslots : SlotsReadBack fields depth slots) {values : fields.Data}
    (h : fields.complete? none slots = some values) :
    FieldsReadBack fields depth values values := by
  cases fields with
  | nil => trivial
  | cons name shape rest =>
    obtain ⟨slot, slots⟩ := slots
    obtain ⟨hslot, hslots⟩ := hslots
    obtain ⟨hvalue, hrest⟩ := (Fields.complete?_cons_eq_some_iff ..).1 h
    refine ⟨?_, readsBack_of_complete? rest depth hslots hrest⟩
    cases slot with
    | some value =>
      cases hvalue
      exact hslot _ rfl
    | none =>
      cases shape with
      | option item =>
        replace hvalue : some none = some values.1 := hvalue
        rw [← Option.some.inj hvalue]
        exact rfl
      | _ => cases hvalue

mutual

/-- Without doubles, what a reader takes is read back as itself. By induction on the shape. -/
theorem reader_yields (shape : Shape) (hdouble : shape.hasDouble = false)
    (hnames : shape.isWellNamed = true) (depth : Nat) :
    (reader shape depth).Yields fun v => ReadsBack shape depth v v := by
  cases shape with
  | bool | integer kind | char | text | unit => exact fun _ _ _ _ => rfl
  | double => cases hdouble
  | variants names => exact variant_yields (fun _ _ h => finIdxOf?_get h) depth
  | tuple fields =>
    exact array_yields (fun d => itemReader_yields fields hdouble hnames d true) depth
  | record fields =>
    rw [Shape.isWellNamed, Bool.and_eq_true, decide_eq_true_eq] at hnames
    refine record_yields (fun d => ?_) (fun d => ?_) depth
    · exact (itemReader_yields fields hdouble hnames.2 d true).mono fun v hv => ⟨hnames.1, hv⟩
    · -- The members come in any order, so the loop keeps what is known of the fields with a value.
      refine Yields.refine (p := SlotsReadBack fields d) ?_ fun slots values hslots hvalues =>
        ⟨hnames.1, readsBack_of_complete? fields d hslots hvalues⟩
      refine members_yields _ (fun slots key r hslots hr => ?_) (slotsReadBack_noSlots fields d)
      have honce := once_yields hr fun m hm =>
        memberReader?_yields fields hdouble hnames.2 d key hm
      exact honce.mono fun _ h => h slots hslots
  | list item =>
    have hitems := fun d => items_yields (reader_yields item hdouble hnames d)
    refine (array_yields hitems depth).mono ?_
    rintro values ⟨d, hd, h⟩
    exact ⟨d, hd, List.forall₂_same.2 h⟩
  | map item =>
    refine (dictionary_yields (fun d => reader_yields item hdouble hnames d) depth).mono ?_
    rintro m ⟨d, hd, h⟩
    exact ⟨d, hd, List.forall₂_same.2 fun e he => ⟨rfl, h e he⟩⟩
  | option item =>
    exact option_yields item hdouble (reader_yields item hdouble hnames depth)
  | nest => exact (nest_yields depth).mono fun n h => ⟨h, rfl⟩

/-- The same for an array of the fields. -/
theorem itemReader_yields (fields : Fields) (hdouble : fields.hasDouble = false)
    (hnames : fields.isWellNamed = true) (depth : Nat) (first : Bool) :
    (itemReader fields depth first none).Yields fun v => FieldsReadBack fields depth v v := by
  cases fields with
  | nil => exact fun _ _ _ _ => trivial
  | cons name shape rest =>
    rw [Fields.hasDouble, Bool.or_eq_false_iff] at hdouble
    rw [Fields.isWellNamed, Bool.and_eq_true] at hnames
    exact itemThen_yields (reader_yields shape hdouble.1 hnames.1 depth)
      (itemReader_yields rest hdouble.2 hnames.2 depth false) first

/-- A member of an object fills its own field, and leaves the others alone. -/
theorem memberReader?_yields (fields : Fields) (hdouble : fields.hasDouble = false)
    (hnames : fields.isWellNamed = true) (depth : Nat) (key : String) {m : Member fields.Slots}
    (h : memberReader? fields depth key = some m) :
    m.value.Yields fun update => ∀ slots, SlotsReadBack fields depth slots →
      SlotsReadBack fields depth (update slots) := by
  cases fields with
  | nil => cases h
  | cons name shape rest =>
    rw [Fields.hasDouble, Bool.or_eq_false_iff] at hdouble
    rw [Fields.isWellNamed, Bool.and_eq_true] at hnames
    by_cases hkey : key = name
    · subst hkey
      cases (memberReader?_cons_self key shape rest depth).symm.trans h
      refine (reader_yields shape hdouble.1 hnames.1 depth).map fun value hvalue slots hslots => ?_
      exact ⟨fun _ hsome => by cases hsome; exact hvalue, hslots.2⟩
    · replace h := (memberReader?_cons_of_ne hkey shape rest depth).symm.trans h
      obtain ⟨m', hm', rfl⟩ := Option.map_eq_some_iff.1 h
      refine (memberReader?_yields rest hdouble.2 hnames.2 depth key hm').map ?_
      exact fun update hupdate slots hslots => ⟨hslots.1, hupdate _ hslots.2⟩

end

/-- What has been read from any text is read back as itself. -/
theorem readsBack_of_read {shape : Shape} (hdouble : shape.hasDouble = false)
    (hnames : shape.isWellNamed = true) {text : Bytes} {value : shape.Data}
    (h : read shape text = .ok value) : ReadsBack shape depthLimit value value := by
  rw [read, Reader.read] at h
  split at h
  next => cases h
  next hrun =>
    split at h
    next =>
      cases h
      exact reader_yields shape hdouble hnames depthLimit _ _ _ hrun
    next => cases h

end Json

end CommandWire
