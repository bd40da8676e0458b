import CommandWire.Proofs.Json.Faithful
import CommandWire.Proofs.Json.Nesting

/-!
# Shapes whose values are all kept

A value can be lost in JSON in few ways: names may be taken for each other, a double may be read as
another one, and an option may hold what is written as `null`. Where names are distinct, a shape
without the others is faithful (`Shape.isFaithful`). Each value of such a shape is read back as
itself, provided that its text does not nest too deeply, and nothing else can happen to it
(`nesting_write_le_iff`, `eq_of_readsBack`).
-/

namespace CommandWire

/-- Some value of the shape is written as `null`. -/
def Shape.hasNull : Shape → Bool
  | .double | .unit | .option _ => true
  | .bool | .integer _ | .char | .text | .variants _ | .tuple _ | .record _ | .list _ | .map _
  | .nest => false

mutual

/-- There are no doubles, and no options that can hold `null`. -/
def Shape.isFaithful : Shape → Bool
  | .double => false
  | .tuple fields | .record fields => fields.isFaithful
  | .list item | .map item => item.isFaithful
  | .option item => !item.hasNull && item.isFaithful
  | .bool | .integer _ | .char | .text | .unit | .variants _ | .nest => true

def Fields.isFaithful : Fields → Bool
  | .nil => true
  | .cons _ shape rest => shape.isFaithful && rest.isFaithful

end

namespace Json

theorem exists_isNull_iff (shape : Shape) : (∃ v, IsNull shape v) ↔ shape.hasNull = true := by
  cases shape with
  | double => exact iff_of_true ⟨⟨0x7ff0000000000000⟩, rfl⟩ rfl
  | unit => exact iff_of_true ⟨(), trivial⟩ rfl
  | option item => exact iff_of_true ⟨(none : Option item.Data), trivial⟩ rfl
  | bool | integer kind | char | text | variants names | tuple fields | record fields | list item
  | map item | nest => exact iff_of_false (fun ⟨_, h⟩ => h) Bool.false_ne_true

theorem not_isNull {shape : Shape} (h : shape.hasNull = false) (v : shape.Data) :
    ¬ IsNull shape v := by
  intro hv
  have hnull := (exists_isNull_iff shape).1 ⟨v, hv⟩
  rw [h] at hnull
  cases hnull

theorem finIdxOf?_get_of_nodup {names : List String} (h : names.Nodup) (i : Fin names.length) :
    names.finIdxOf? (names.get i) = some i := by
  rw [List.finIdxOf?_eq_some_iff]
  refine ⟨rfl, fun j hj hsame => ?_⟩
  exact List.pairwise_iff_getElem.1 h j i j.isLt i.isLt hj hsame

/-! ### Nothing else is read back -/

mutual

/-- All parts of the value are kept. By induction on the shape. -/
theorem areKept_of_isFaithful (shape : Shape) (hnames : shape.isWellNamed = true)
    (h : shape.isFaithful = true) (v : shape.Data) : AllWritten IsKept shape v := by
  cases shape with
  | double => cases h
  | bool | integer kind | char | text | unit | nest => trivial
  | variants names => exact finIdxOf?_get_of_nodup (of_decide_eq_true hnames) v
  | tuple fields => exact ⟨trivial, fieldsAreKept_of_isFaithful fields hnames h v⟩
  | record fields =>
    exact ⟨trivial, fieldsAreKept_of_isFaithful fields (Bool.and_eq_true_iff.1 hnames).2 h v⟩
  | list item => exact ⟨trivial, fun x _ => areKept_of_isFaithful item hnames h x⟩
  | map item => exact ⟨trivial, fun e _ => areKept_of_isFaithful item hnames h e.2⟩
  | option item =>
    cases v with
    | none => exact ⟨trivial, trivial⟩
    | some v =>
      obtain ⟨hnull, hitem⟩ := Bool.and_eq_true_iff.1 h
      refine ⟨not_isNull ?_ v, fun _ => areKept_of_isFaithful item hnames hitem v⟩
      simpa using hnull

theorem fieldsAreKept_of_isFaithful (fields : Fields) (hnames : fields.isWellNamed = true)
    (h : fields.isFaithful = true) (v : fields.Data) : AllFieldsWritten IsKept fields v := by
  cases fields with
  | nil => trivial
  | cons name shape rest =>
    obtain ⟨hname, hnames⟩ := Bool.and_eq_true_iff.1 hnames
    obtain ⟨hshape, hrest⟩ := Bool.and_eq_true_iff.1 h
    exact ⟨areKept_of_isFaithful shape hname hshape v.1,
      fieldsAreKept_of_isFaithful rest hnames hrest v.2⟩

end

theorem eq_of_readsBack {shape : Shape} (hnames : shape.isWellNamed = true)
    (h : shape.isFaithful = true) {depth : Nat} {v w : shape.Data}
    (hread : ReadsBack shape depth v w) : w = v :=
  (eq_iff_of_readsBack shape depth v w hread).2 (areKept_of_isFaithful shape hnames h v)

/-! ### Room is all that it takes -/

theorem writeNest_eq_bracketed (n : Nest) :
    writeNest n = bracketed '[' ']' (n.toList.map writeNest) := by
  rw [writeNest, inside_eq_listed, bracketed_eq]

theorem Nest.height_lt_iff (n : Nest) (room : Nat) :
    n.height < room ↔ ∃ d, room = d + 1 ∧ ∀ item ∈ n.toList, item.height < d := by
  cases room with
  | zero => exact iff_of_false (Nat.not_lt_zero _) fun ⟨_, hroom, _⟩ => Nat.noConfusion hroom
  | succ room =>
    rw [Nest.height_lt_succ_iff]
    constructor
    · intro h
      exact ⟨room, rfl, h⟩
    · rintro ⟨_, ⟨⟩, h⟩
      exact h

theorem spans_writeNest_of_items {n : Nest}
    (h : ∀ item ∈ n.toList, Spans (writeNest item) (item.height < ·)) :
    Spans (writeNest n) (n.height < ·) := by
  rw [writeNest_eq_bracketed]
  exact ((spans_listed n.toList h true).bracketed (by decide) (by decide)).congr fun room =>
    (Nest.height_lt_iff n room).symm

/-- By induction on the list, for all its items. -/
theorem spans_items (n : Nest) : ∀ item ∈ n.toList, Spans (writeNest item) (item.height < ·) := by
  induction n with
  | empty => nofun
  | cons head tail hhead htail =>
    exact List.forall_mem_cons.2 ⟨spans_writeNest_of_items hhead, htail⟩

theorem spans_writeNest (n : Nest) : Spans (writeNest n) (n.height < ·) :=
  spans_writeNest_of_items (spans_items n)

mutual

/-- The text of a value is given enough room iff the value is read back as itself. By induction on
the shape. -/
theorem spans_write (shape : Shape) (hnames : shape.isWellNamed = true)
    (h : shape.isFaithful = true) (v : shape.Data) :
    Spans (write shape v) fun room => ReadsBack shape room v v := by
  cases shape with
  | double => cases h
  | bool =>
    have hflat : Flat (write .bool v) := flat_of_all (by cases v <;> rfl)
    exact hflat.spans.congr fun _ => iff_of_true trivial rfl
  | integer kind => exact (flat_writeInt v.val).spans.congr fun _ => iff_of_true trivial rfl
  | char =>
    exact (flat_writeText (String.singleton v)).spans.congr fun _ => iff_of_true trivial rfl
  | text => exact (flat_writeText v).spans.congr fun _ => iff_of_true trivial rfl
  | unit =>
    have hflat : Flat (Bytes.ofText "null") := flat_of_all rfl
    exact hflat.spans.congr fun _ => iff_of_true trivial rfl
  | variants names =>
    exact (flat_writeText (names.get v)).spans.congr fun _ =>
      iff_of_true trivial (finIdxOf?_get_of_nodup (of_decide_eq_true hnames) v)
  | tuple fields =>
    exact (spans_writeFields fields hnames h v (fun _ _ _ hpart => hpart) true).bracketed
      (by decide) (by decide)
  | record fields =>
    -- Being read back asks for distinct names of the fields themselves as well.
    obtain ⟨hdistinct, hnames⟩ := Bool.and_eq_true_iff.1 hnames
    refine ((spans_writeFields fields hnames h v (fun name _ _ hpart => hpart.member name)
      true).bracketed (by decide) (by decide)).congr fun room => ?_
    exact exists_congr fun d => and_congr_right' (and_iff_right (of_decide_eq_true hdistinct)).symm
  | list item =>
    refine ((spans_listed v (fun x _ => spans_write item hnames h x) true).bracketed (by decide)
      (by decide)).congr fun room => ?_
    exact exists_congr fun d => and_congr_right' List.forall₂_same.symm
  | map item =>
    refine ((spans_listed v.entries (fun e _ => (spans_write item hnames h e.2).member e.1)
      true).bracketed (by decide) (by decide)).congr fun room => ?_
    refine exists_congr fun d => and_congr_right' ?_
    exact (List.forall₂_same.trans (by simp)).symm
  | option item =>
    obtain ⟨hnull, hitem⟩ := Bool.and_eq_true_iff.1 h
    cases v with
    | none =>
      have hflat : Flat (Bytes.ofText "null") := flat_of_all rfl
      exact hflat.spans.congr fun _ => iff_of_true trivial rfl
    | some v =>
      -- The text is that of the item, and since it is not `null` the item is read.
      refine Spans.congr (spans_write item hnames hitem v) fun room => ?_
      rw [readsBack_some_of_not_isNull room _ (not_isNull (by simpa using hnull) v)]
      simp
  | nest => exact (spans_writeNest v).congr fun room => (and_iff_left rfl).symm

/-- The same for fields, however their texts are made parts of a list. -/
theorem spans_writeFields (fields : Fields) (hnames : fields.isWellNamed = true)
    (h : fields.isFaithful = true) (v : fields.Data) {part : String × Bytes → Bytes}
    (hpart : ∀ name text within, Spans text within → Spans (part (name, text)) within)
    (first : Bool) :
    Spans (listed first ((writeFields fields v).map part)) fun room =>
      FieldsReadBack fields room v v := by
  cases fields with
  | nil => exact spans_listed_nil first
  | cons name shape rest =>
    obtain ⟨hname, hnames⟩ := Bool.and_eq_true_iff.1 hnames
    obtain ⟨hshape, hrest⟩ := Bool.and_eq_true_iff.1 h
    have hvalue := hpart name _ _ (spans_write shape hname hshape v.1)
    exact hvalue.listed_cons (spans_writeFields rest hnames hrest v.2 hpart false) first

end

/-- A value of a faithful shape is read back iff its text does not nest too deeply. -/
theorem nesting_write_le_iff {shape : Shape} (hnames : shape.isWellNamed = true)
    (h : shape.isFaithful = true) (v : shape.Data) (depth : Nat) :
    nesting (write shape v) ≤ depth ↔ ReadsBack shape depth v v :=
  (spans_write shape hnames h v).nesting_le_iff depth

end Json

end CommandWire
