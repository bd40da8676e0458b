import CommandWire.Proofs.Json.Object

/-!
# What written values are read back as

`ReadsBack shape depth v w` says that `w` is what a reader makes of the text of `v`, where so many
brackets may be opened. It goes by the structure of the values alone, and the reader agrees with it
in both directions (`reader_takes`): it takes the text for each such `w`, and for nothing else. So
where there is no such `w` the text is refused.

Two values are not read back as themselves. A double may be read back as another double, since
reading rounds twice. And a value that is written as `null` is lost under an option.
-/

namespace CommandWire

/-- All fields have a value. -/
def Fields.filled : (fields : Fields) → fields.Data → fields.Slots
  | .nil, _ => ()
  | .cons _ _ rest, (value, values) => (some value, rest.filled values)

theorem Fields.complete?_cons (name : String) (shape : Shape) (rest : Fields)
    (slot : Option shape.Data) (slots : rest.Slots) :
    (Fields.cons name shape rest).complete? none (slot, slots) =
      match slot <|> shape.absent?, rest.complete? none slots with
      | some value, some values => some (value, values)
      | _, _ => none :=
  rfl

/-- All fields are there iff the first one is, or counts as absent, and all others are. -/
theorem Fields.complete?_cons_eq_some_iff (name : String) (shape : Shape) (rest : Fields)
    (slot : Option shape.Data) (slots : rest.Slots) (values : (Fields.cons name shape rest).Data) :
    (Fields.cons name shape rest).complete? none (slot, slots) = some values ↔
      (slot <|> shape.absent?) = some values.1 ∧ rest.complete? none slots = some values.2 := by
  obtain ⟨value, values⟩ := values
  refine (Eq.congr_left (complete?_cons name shape rest slot slots)).trans ?_
  constructor
  · intro h
    split at h
    next hvalue hvalues =>
      cases h
      exact ⟨hvalue, hvalues⟩
    next => cases h
  · rintro ⟨hvalue, hvalues⟩
    rw [hvalue, hvalues]

theorem Fields.complete?_filled : (fields : Fields) → (values : fields.Data) →
    fields.complete? none (fields.filled values) = some values
  | .nil, _ => rfl
  | .cons name shape rest, (_, values) =>
    (complete?_cons_eq_some_iff name shape rest ..).2 ⟨rfl, complete?_filled rest values⟩

namespace Json

/-- The value is written as the word `null`. -/
def IsNull : (shape : Shape) → shape.Data → Prop
  | .double, x => x.isFinite = false
  | .unit, _ => True
  | .option item, value =>
    match value with
    | none => True
    | some value => IsNull item value
  | .bool, _ | .integer _, _ | .char, _ | .text, _ | .variants _, _ | .tuple _, _ | .record _, _
  | .list _, _ | .map _, _ | .nest, _ => False

mutual

/-- The second value is what the text of the first one is read as. -/
def ReadsBack : (shape : Shape) → (depth : Nat) → (written read : shape.Data) → Prop
  | .bool, _, v, w => w = v
  | .integer _, _, v, w => w = v
  | .double, _, v, w => read .double (writeDouble v) = .ok w
  | .char, _, v, w => w = v
  | .text, _, v, w => w = v
  | .unit, _, v, w => w = v
  | .variants names, _, v, w => names.finIdxOf? (names.get v) = some w
  | .tuple fields, depth, v, w => ∃ d, depth = d + 1 ∧ FieldsReadBack fields d v w
  -- A record with two fields of one name cannot be read as an object.
  | .record fields, depth, v, w =>
    ∃ d, depth = d + 1 ∧ fields.names.Nodup ∧ FieldsReadBack fields d v w
  | .list item, depth, v, w => ∃ d, depth = d + 1 ∧ List.Forall₂ (ReadsBack item d) v w
  | .map item, depth, v, w =>
    ∃ d, depth = d + 1 ∧
      List.Forall₂ (fun e e' => e'.1 = e.1 ∧ ReadsBack item d e.2 e'.2) v.entries w.entries
  | .option item, depth, v, w =>
    match v with
    | none => w = none
    | some v =>
      (IsNull item v ∧ w = none) ∨ (¬ IsNull item v ∧ ∃ a, ReadsBack item depth v a ∧ some a = w)
  | .nest, depth, v, w => v.height < depth ∧ w = v

/-- The same for the values of fields. -/
def FieldsReadBack : (fields : Fields) → (depth : Nat) → (written read : fields.Data) → Prop
  | .nil, _, _, _ => True
  | .cons _ shape rest, depth, v, w =>
    ReadsBack shape depth v.1 w.1 ∧ FieldsReadBack rest depth v.2 w.2

end

section Option

variable {item : Shape} {v : item.Data} (depth : Nat) (w : Option item.Data)

theorem readsBack_some_of_isNull (h : IsNull item v) :
    ReadsBack (.option item) depth (some v) w ↔ w = none :=
  ⟨fun hread => hread.elim And.right fun hsome => absurd h hsome.1, fun hw => .inl ⟨h, hw⟩⟩

theorem readsBack_some_of_not_isNull (h : ¬ IsNull item v) :
    ReadsBack (.option item) depth (some v) w ↔ ∃ a, ReadsBack item depth v a ∧ some a = w :=
  ⟨fun hread => hread.elim (fun hnull => absurd hnull.1 h) And.right, fun hw => .inr ⟨h, hw⟩⟩

end Option

/-! ### The first byte -/

theorem write_of_isNull (shape : Shape) (value : shape.Data) (h : IsNull shape value) :
    write shape value = Bytes.ofText "null" := by
  cases shape with
  | double => exact writeDouble_of_not_isFinite h
  | unit => rfl
  | option item =>
    cases value with
    | none => rfl
    | some value => exact write_of_isNull item value h
  | _ => exact h.elim

/-- Only the word begins with its first byte. -/
theorem write_of_not_isNull (shape : Shape) (value : shape.Data) (h : ¬ IsNull shape value) :
    ∃ b more, write shape value = b :: more ∧ startsValue b = true ∧ b ≠ ascii 'n' := by
  cases shape with
  | bool =>
    cases value with
    | true => exact ⟨_, _, rfl, by decide, by decide⟩
    | false => exact ⟨_, _, rfl, by decide, by decide⟩
  | integer kind =>
    obtain ⟨b, more, htext, hb⟩ := startsNumber_writeInt value.val
    exact ⟨b, more, htext, startsValue_of_startsNumber hb, ne_of_startsNumber hb⟩
  | double =>
    obtain ⟨b, more, htext, hb⟩ := startsNumber_writeDouble (Bool.not_eq_false _ ▸ h)
    exact ⟨b, more, htext, startsValue_of_startsNumber hb, ne_of_startsNumber hb⟩
  | unit => exact absurd trivial h
  | option item =>
    cases value with
    | none => exact absurd trivial h
    | some value => exact write_of_not_isNull item value h
  | _ => exact ⟨_, _, rfl, by decide, by decide⟩

theorem startsValue_write (shape : Shape) (value : shape.Data) :
    StartsValue (write shape value) := by
  by_cases h : IsNull shape value
  · rw [write_of_isNull shape value h]
    exact ⟨ascii 'n', Bytes.ofText "ull", rfl, by decide⟩
  · obtain ⟨b, more, htext, hb, -⟩ := write_of_not_isNull shape value h
    exact ⟨b, more, htext, hb⟩

/-! ### Readers on written values -/

section Scalars

open Reader

theorem integer_takes (kind : IntegerKind) (value : kind.Value) :
    (numeric (Number.toKind? kind)).Takes (writeInt value.val) (· = value) := by
  obtain ⟨b, more, htext, hb⟩ := startsNumber_writeInt value.val
  have hnumber : number.Takes (writeInt value.val) (· = .integer value.val) := by
    intro rest hrest n rest'
    have hlow : -0x8000000000000000 ≤ kind.low := by cases kind <;> decide
    have hbound : kind.bound ≤ 0x10000000000000000 := by cases kind <;> decide
    show readNumber _ = _ ↔ _
    rw [readNumber_writeInt (Int.le_trans hlow value.property.1)
      (Int.lt_of_lt_of_le value.property.2 hbound) hrest]
    constructor
    · intro h
      cases h
      exact ⟨rfl, rfl⟩
    · rintro ⟨rfl, rfl⟩
      rfl
  rw [htext] at hnumber ⊢
  refine (numeric_takes hb hnumber (Number.toKind? kind)).congr fun w => ?_
  simp [Number.toKind?, IntegerKind.ofInt?_val, eq_comm]

/-- A finite double is taken for a number that does not depend on what follows, and one that is not
finite is refused. -/
theorem double_takes (x : Double) :
    (numeric (some ∘ Number.toDouble)).Takes (writeDouble x)
      fun y => read .double (writeDouble x) = .ok y := by
  have htakes : ∃ values, (numeric (some ∘ Number.toDouble)).Takes (writeDouble x) values := by
    cases hx : x.isFinite with
    | true =>
      obtain ⟨b, more, htext, hb⟩ := startsNumber_writeDouble hx
      have hnumber : number.Takes (writeDouble x)
          fun n => ∃ rest, readNumber (writeDouble x) = .ok (n, rest) := by
        intro rest hrest n rest'
        show readNumber _ = _ ↔ _
        rw [readNumber_writeDouble_append hx hrest]
        cases readNumber (writeDouble x) with
        | error failure => simp [Except.map]
        | ok result => simp [Except.map, Prod.ext_iff, eq_comm, and_comm]
      rw [htext] at hnumber ⊢
      exact ⟨_, numeric_takes hb hnumber _⟩
    | false =>
      rw [writeDouble_of_not_isFinite hx]
      exact ⟨_, Takes.byFirst (b := ascii 'n') (by decide) (mismatch_takes _)⟩
  obtain ⟨values, htakes⟩ := htakes
  exact htakes.congr fun y => (htakes.read y).symm

end Scalars

/-! ### Lists of themselves -/

theorem Nest.height_lt_succ_iff (n : Nest) (depth : Nat) :
    n.height < depth + 1 ↔ ∀ item ∈ n.toList, item.height < depth := by
  induction n with
  | empty => simp [Nest.height, Nest.toList]
  | cons head tail _ ih =>
    rw [Nest.height, Nest.toList, List.forall_mem_cons, ← ih]
    omega

/-- What is between the brackets, as a list of items. -/
theorem inside_eq_listed (n : Nest) :
    writeNest.inside n = listed true (n.toList.map writeNest) ++ [ascii ']'] := by
  induction n with
  | empty => rfl
  | cons head tail _ ih =>
    cases tail with
    | empty => simp [writeNest.inside, Nest.toList, listed, writeNest]
    | cons next more =>
      rw [writeNest.inside, ih]
      · simp [Nest.toList, listed, writeNest]
      · simp

theorem forall₂_eq_comm {α : Type} (l m : List α) :
    List.Forall₂ (fun a b => b = a) l m ↔ m = l := by
  rw [← List.forall₂_eq_eq_eq]
  exact ⟨fun h => h.flip, fun h => h.flip⟩

theorem nest_takes (n : Nest) (depth : Nat) :
    (Reader.nest depth).Takes (writeNest n) fun m => n.height < depth ∧ m = n := by
  induction depth generalizing n with
  | zero =>
    refine Reader.Takes.byFirst (by decide) ?_
    rw [if_pos rfl]
    exact (Reader.refuse_takes _ _).congr fun m => by simp
  | succ depth ih =>
    refine Reader.Takes.byFirst (by decide) ?_
    rw [if_pos rfl, inside_eq_listed]
    have hitems := Reader.items_takes n.toList (fun x _ => startsValue_write .nest x)
      (fun x _ => ih x)
    have hinner := Reader.Takes.afterFirst (b := ascii '[') hitems
      fun h => Nat.le_of_lt ((Reader.items (Reader.nest depth)).shrinks h)
    refine (hinner.map Nest.ofList).congr fun m => ?_
    simp only [List.forall₂_and_left, eq_comm (b := m), forall₂_eq_comm, Nest.height_lt_succ_iff]
    constructor
    · rintro ⟨items, ⟨hheight, rfl⟩, rfl⟩
      exact ⟨hheight, Nest.ofList_toList n⟩
    · rintro ⟨hheight, rfl⟩
      exact ⟨_, ⟨hheight, rfl⟩, (Nest.ofList_toList m).symm⟩

/-! ### Records as objects -/

section Record

open Reader

/-- The members of a record, apart from those that have been taken before. -/
def remaining (fields : Fields) (depth : Nat) (taken : List String) (slots : fields.Slots)
    (key : String) : Option (Reader (fields.Slots → fields.Slots)) :=
  if key ∈ taken then none else once (memberReader? fields depth) (some ignored) slots key

section

variable (fields : Fields) (depth : Nat) {taken : List String} {key : String} (slots : fields.Slots)

theorem remaining_of_mem (h : key ∈ taken) : remaining fields depth taken slots key = none :=
  if_pos h

theorem remaining_of_not_mem (h : key ∉ taken) :
    remaining fields depth taken slots key =
      once (memberReader? fields depth) (some ignored) slots key :=
  if_neg h

end

/-- The member of the first field. -/
def headMember (shape : Shape) (rest : Fields) (depth : Nat) :
    Member (Option shape.Data × rest.Slots) where
  filled slots := slots.1.isSome
  value := (reader shape depth).map fun value slots => (some value, slots.2)

theorem memberReader?_cons_self (name : String) (shape : Shape) (rest : Fields) (depth : Nat) :
    memberReader? (.cons name shape rest) depth name = some (headMember shape rest depth) :=
  if_pos rfl

theorem memberReader?_cons_of_ne {name key : String} (h : key ≠ name) (shape : Shape)
    (rest : Fields) (depth : Nat) :
    memberReader? (.cons name shape rest) depth key =
      (memberReader? rest depth key).map Member.later :=
  if_neg h

section FirstTaken

variable {name key : String} {shape : Shape} {rest : Fields} {depth : Nat} {taken : List String}
  (value : shape.Data) {slots : rest.Slots}

/-- A member that the other fields refuse is refused. -/
theorem remaining_cons_eq_none (h : remaining rest depth (name :: taken) slots key = none) :
    remaining (.cons name shape rest) depth taken (some value, slots) key = none := by
  by_cases htaken : key ∈ taken
  · exact remaining_of_mem _ _ _ htaken
  refine (remaining_of_not_mem _ _ _ htaken).trans ?_
  by_cases hname : key = name
  · -- The first field has its value already.
    subst hname
    exact once_of_filled (memberReader?_cons_self key shape rest depth) rfl
  rw [remaining_of_not_mem _ _ _ (by simp [hname, htaken])] at h
  have hlater := memberReader?_cons_of_ne hname shape rest depth
  cases hm : memberReader? rest depth key with
  | none =>
    rw [once_of_none hm] at h
    cases h
  | some m =>
    rw [hm] at hlater
    refine once_of_filled hlater ?_
    cases hfilled : m.filled slots with
    | true => exact hfilled
    | false =>
      rw [once_of_not_filled hm hfilled] at h
      cases h

/-- A member that the other fields take is taken alike. -/
theorem exists_remaining_cons {r : Reader (rest.Slots → rest.Slots)}
    (h : remaining rest depth (name :: taken) slots key = some r) :
    ∃ r', remaining (.cons name shape rest) depth taken (some value, slots) key = some r' ∧
      Mirrors (fun slots => (some value, slots)) r' r := by
  by_cases hmem : key ∈ name :: taken
  · rw [remaining_of_mem _ _ _ hmem] at h
    cases h
  rw [remaining_of_not_mem _ _ _ hmem] at h
  rw [List.mem_cons, not_or] at hmem
  have hnow := remaining_of_not_mem (.cons name shape rest) depth (some value, slots) hmem.2
  have hlater := memberReader?_cons_of_ne hmem.1 shape rest depth
  cases hm : memberReader? rest depth key with
  | none =>
    rw [once_of_none hm] at h
    cases h
    rw [hm] at hlater
    exact ⟨_, hnow.trans (once_of_none hlater), ignored_mirrors _⟩
  | some m =>
    rw [hm] at hlater
    cases hfilled : m.filled slots with
    | true =>
      rw [once_of_filled hm hfilled] at h
      cases h
    | false =>
      rw [once_of_not_filled hm hfilled] at h
      cases h
      exact ⟨_, hnow.trans (once_of_not_filled hlater hfilled), m.later_mirrors (some value)⟩

/-- Once the first field has its value, its name is one of those that have been taken, and the loop
goes on as if the field were not there. -/
theorem runMembers_remaining_cons (first : Bool) (slots : rest.Slots) (input : Bytes) :
    runMembers (remaining (.cons name shape rest) depth taken) first (some value, slots) input =
      (runMembers (remaining rest depth (name :: taken)) first slots input).map
        fun (slots, input) => ((some value, slots), input) :=
  runMembers_of_mirrors (fun slots => (some value, slots))
    (fun _ _ h => remaining_cons_eq_none value h) (fun _ _ _ h => exists_remaining_cons value h)
    first slots input

end FirstTaken

/-- A member for the first field is taken, and the others are read as if the field were not there.
-/
theorem runMembers_head {name : String} {shape : Shape} (others : Fields) (depth : Nat)
    {taken : List String} (htaken : name ∉ taken) {text : Bytes} {values : shape.Data → Prop}
    (htakes : (reader shape depth).Takes text values) (first : Bool) {rest : Bytes}
    (hrest : EndsNumber rest) (slots : (Fields.cons name shape others).Slots) (rest' : Bytes) :
    runMembers (remaining (.cons name shape others) depth taken) first
        (Fields.cons name shape others).noSlots
        ((if first then writeMember name text else ascii ',' :: writeMember name text) ++ rest) =
      .ok (slots, rest') ↔
      ∃ read more, values read ∧ slots = (some read, more) ∧
        runMembers (remaining others depth (name :: taken)) false others.noSlots rest =
          .ok (more, rest') := by
  have hmember := (remaining_of_not_mem (.cons name shape others) depth
    (Fields.cons name shape others).noSlots htaken).trans
    (once_of_not_filled (memberReader?_cons_self name shape others depth) rfl)
  have htakes := htakes.map
    fun value (slots : (Fields.cons name shape others).Slots) => (some value, slots.2)
  have hothers (read : shape.Data) :
      runMembers (remaining (.cons name shape others) depth taken) false
          (some read, others.noSlots) rest =
        (runMembers (remaining others depth (name :: taken)) false others.noSlots rest).map
          fun (slots, input) => ((some read, slots), input) :=
    runMembers_remaining_cons read false others.noSlots rest
  rw [runMembers_of_takes hmember htakes first hrest]
  constructor
  · rintro ⟨_, ⟨read, hread, rfl⟩, hrun⟩
    have hrun := (hothers read).symm.trans hrun
    cases hmore : runMembers (remaining others depth (name :: taken)) false others.noSlots rest with
    | error failure =>
      rw [hmore] at hrun
      cases hrun
    | ok result =>
      rw [hmore] at hrun
      cases hrun
      exact ⟨read, _, hread, rfl, rfl⟩
  · rintro ⟨read, more, hread, rfl, hmore⟩
    refine ⟨_, ⟨read, hread, rfl⟩, (hothers read).trans ?_⟩
    rw [hmore]
    rfl

end Record

/-! ### The reader on written values -/

open Reader

theorem singleChar?_singleton (c : Char) : singleChar? (String.singleton c) = some c := by
  simp [singleChar?]

mutual

/-- A reader takes the text of a value for what the value is read back as. By induction on the
shape. -/
theorem reader_takes (shape : Shape) (depth : Nat) (value : shape.Data) :
    (reader shape depth).Takes (write shape value) (ReadsBack shape depth value) := by
  cases shape with
  | bool => exact bool_takes value
  | integer kind => exact integer_takes kind value
  | double => exact double_takes value
  | char =>
    exact (textual_takes singleChar? (String.singleton value)).congr fun w =>
      (Eq.congr_left (singleChar?_singleton value)).trans (Option.some_inj.trans eq_comm)
  | text => exact (textual_takes some value).congr fun w => Option.some_inj.trans eq_comm
  | unit => exact null_takes ()
  | variants names => exact variant_takes names.finIdxOf? (names.get value) depth
  | tuple fields =>
    rw [write, bracketed_eq]
    exact array_takes (fun d => itemReader_takes fields d true value) depth
  | record fields =>
    rw [write, bracketed_eq]
    refine Takes.byFirst (by decide) ?_
    rw [if_neg (by decide), if_pos rfl]
    refine enter_takes (fun d => ?_) depth
    have hmembers : (members (once (memberReader? fields d) (some ignored)) fields.noSlots).Takes
        (listed true ((writeFields fields value).map fun (name, text) => writeMember name text) ++
          [ascii '}'])
        fun slots => fields.names.Nodup ∧
          ∃ read, FieldsReadBack fields d value read ∧ slots = fields.filled read := by
      intro rest _ slots rest'
      rw [List.append_assoc]
      exact (runMembers_writeFields fields d [] true value rest slots rest').trans (by simp)
    refine (hmembers.refine (fields.complete? none)).congr fun read => ?_
    constructor
    · rintro ⟨_, ⟨hnames, read', hread, rfl⟩, hcomplete⟩
      rw [fields.complete?_filled] at hcomplete
      cases hcomplete
      exact ⟨hnames, hread⟩
    · rintro ⟨hnames, hread⟩
      exact ⟨_, ⟨hnames, read, hread, rfl⟩, fields.complete?_filled read⟩
  | list item =>
    rw [write, bracketed_eq]
    exact array_takes (fun d => items_takes value (fun x _ => startsValue_write item x)
      fun x _ => reader_takes item d x) depth
  | map item =>
    exact dictionary_takes value.increasing (fun d e _ => reader_takes item d e.2) depth
  | option item =>
    cases value with
    | none => exact option_takes_null (reader item depth)
    | some value =>
      by_cases hnull : IsNull item value
      · have htext := write_of_isNull item value hnull
        show (option (reader item depth)).Takes (write item value) _
        rw [htext]
        exact (option_takes_null _).congr fun w => (readsBack_some_of_isNull depth w hnull).symm
      · obtain ⟨b, more, htext, hb, hn⟩ := write_of_not_isNull item value hnull
        have hitem := reader_takes item depth value
        show (option (reader item depth)).Takes (write item value) _
        rw [htext] at hitem ⊢
        exact (option_takes hb hn hitem).congr fun w =>
          (readsBack_some_of_not_isNull depth w hnull).symm
  | nest => exact nest_takes value depth

/-- The items of an array are taken for the values of the fields, one after the other. -/
theorem itemReader_takes (fields : Fields) (depth : Nat) (first : Bool) (values : fields.Data) :
    (itemReader fields depth first none).Takes
      (listed first ((writeFields fields values).map (·.2)) ++ [ascii ']'])
      (FieldsReadBack fields depth values) := by
  cases fields with
  | nil => exact arrayEnd_takes
  | cons name shape rest =>
    obtain ⟨value, values⟩ := values
    have hitem := reader_takes shape depth value
    have hothers := itemReader_takes rest depth false values
    have hends (following : Bytes) : EndsNumber
        (listed false ((writeFields rest values).map (·.2)) ++ [ascii ']'] ++ following) := by
      rw [List.append_assoc]
      exact endsNumber_listed _ (ascii ']') (by decide) following
    show (itemThen first none (reader shape depth) (itemReader rest depth false none)).Takes
      (listed first (write shape value :: (writeFields rest values).map (·.2)) ++ [ascii ']']) _
    rw [listed, List.append_assoc]
    exact itemThen_takes first (startsValue_write shape value) hitem hends hothers

/-- The members of a record are taken iff none of their names has been taken before, by a member or
by another of them. -/
theorem runMembers_writeFields (fields : Fields) (depth : Nat) (taken : List String)
    (first : Bool) (values : fields.Data) (rest : Bytes) (slots : fields.Slots) (rest' : Bytes) :
    runMembers (remaining fields depth taken) first fields.noSlots
        (listed first ((writeFields fields values).map fun (name, text) => writeMember name text) ++
          ascii '}' :: rest) = .ok (slots, rest') ↔
      rest' = rest ∧ (∀ name ∈ fields.names, name ∉ taken) ∧ fields.names.Nodup ∧
        ∃ read, FieldsReadBack fields depth values read ∧ slots = fields.filled read := by
  cases fields with
  | nil =>
    have hclose := runMembers_close (remaining .nil depth taken) first Fields.nil.noSlots rest
    show runMembers _ first Fields.nil.noSlots (ascii '}' :: rest) = _ ↔ _
    rw [hclose]
    constructor
    · intro h
      cases h
      exact ⟨rfl, by simp [Fields.names], List.nodup_nil, (), trivial, rfl⟩
    · rintro ⟨rfl, -, -, read, -, rfl⟩
      rfl
  | cons name shape others =>
    obtain ⟨value, values⟩ := values
    show runMembers (remaining (.cons name shape others) depth taken) first
      (Fields.cons name shape others).noSlots
      (listed first (writeMember name (write shape value) ::
        (writeFields others values).map fun (name, text) => writeMember name text) ++
          ascii '}' :: rest) = _ ↔ _
    rw [listed, List.append_assoc, Fields.names, List.nodup_cons, List.forall_mem_cons]
    by_cases htaken : name ∈ taken
    · rw [runMembers_of_refused (remaining_of_mem _ _ _ htaken)]
      constructor
      · intro h
        cases h
      · rintro ⟨-, ⟨hfree, -⟩, -⟩
        exact absurd htaken hfree
    have hothers := runMembers_writeFields others depth (name :: taken) false values rest
    refine (runMembers_head others depth htaken (reader_takes shape depth value) first
      (endsNumber_listed _ (ascii '}') (by decide) rest) slots rest').trans ?_
    constructor
    · rintro ⟨read, more, hread, rfl, hmore⟩
      obtain ⟨hrest, hfree, hnames, read', hread', rfl⟩ := (hothers _ _).1 hmore
      refine ⟨hrest, ⟨htaken, fun other h h' => ?_⟩, ⟨fun h => ?_, hnames⟩, (read, read'),
        ⟨hread, hread'⟩, rfl⟩
      · exact hfree other h (List.mem_cons_of_mem name h')
      · exact hfree name h List.mem_cons_self
    · rintro ⟨hrest, ⟨-, hfree⟩, ⟨hname, hnames⟩, ⟨read, read'⟩, ⟨hread, hread'⟩, rfl⟩
      have hfree' : ∀ other ∈ others.names, other ∉ name :: taken := by
        intro other h h'
        obtain rfl | h' := List.mem_cons.1 h'
        · exact hname h
        · exact hfree other h h'
      exact ⟨read, _, hread, rfl, (hothers _ _).2 ⟨hrest, hfree', hnames, read', hread', rfl⟩⟩

end

/-- The text of a value is read as what the value is read back as. -/
theorem read_write_eq_ok_iff {shape : Shape} {v w : shape.Data} :
    read shape (write shape v) = .ok w ↔ ReadsBack shape depthLimit v w :=
  (reader_takes shape depthLimit v).read w

end Json

end CommandWire
