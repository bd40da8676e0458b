import CommandWire.Proofs.Json.ReadBack

/-!
# Which values are read back as themselves

A value whose text can be read at all is read back as itself iff each of its parts is kept
(`eq_iff_of_readsBack`): the doubles are among those that reading finds again, and no option holds
something that is written as `null`. A double that is not finite can hide under such an option; at
every other place it makes the text unreadable (`areFinite_of_readsBack`).
-/

namespace CommandWire.Json

/-! ### Parts of a value -/

mutual

/-- The property holds of the value and of all parts that are written out. What an option holds is
not written out if it is `null`. -/
def AllWritten (p : (shape : Shape) → shape.Data → Prop) : (shape : Shape) → shape.Data → Prop
  | .tuple fields, v => p (.tuple fields) v ∧ AllFieldsWritten p fields v
  | .record fields, v => p (.record fields) v ∧ AllFieldsWritten p fields v
  | .list item, (v : List item.Data) => p (.list item) v ∧ ∀ x ∈ v, AllWritten p item x
  | .map item, v => p (.map item) v ∧ ∀ e ∈ v.entries, AllWritten p item e.2
  | .option item, v =>
    p (.option item) v ∧
      match v with
      | none => True
      | some v => ¬ IsNull item v → AllWritten p item v
  | .bool, v => p .bool v
  | .integer kind, v => p (.integer kind) v
  | .double, v => p .double v
  | .char, v => p .char v
  | .text, v => p .text v
  | .unit, v => p .unit v
  | .variants names, v => p (.variants names) v
  | .nest, v => p .nest v

/-- The same for the values of fields. -/
def AllFieldsWritten (p : (shape : Shape) → shape.Data → Prop) :
    (fields : Fields) → fields.Data → Prop
  | .nil, _ => True
  | .cons _ shape rest, v => AllWritten p shape v.1 ∧ AllFieldsWritten p rest v.2

end

/-- The part itself is not lost when it is written and read. A name must be the first of its kind,
and an option must not hold `null`. -/
def IsKept : (shape : Shape) → shape.Data → Prop
  | .double, x => read .double (writeDouble x) = .ok x
  | .variants names, i => names.finIdxOf? (names.get i) = some i
  | .option item, v =>
    match v with
    | none => True
    | some v => ¬ IsNull item v
  | .bool, _ | .integer _, _ | .char, _ | .text, _ | .unit, _ | .tuple _, _ | .record _, _
  | .list _, _ | .map _, _ | .nest, _ => True

/-- The part is not a double, or it is a finite one. -/
def IsFinite : (shape : Shape) → shape.Data → Prop
  | .double, x => x.isFinite = true
  | .bool, _ | .integer _, _ | .char, _ | .text, _ | .unit, _ | .variants _, _ | .tuple _, _
  | .record _, _ | .list _, _ | .map _, _ | .option _, _ | .nest, _ => True

/-! ### What is kept -/

/-- Lists are equal if their items are, so what is read back is the same list iff all items are. -/
theorem eq_iff_of_forall₂ {α : Type} {p : α → Prop} {r : α → α → Prop} {l m : List α}
    (h : ∀ a b, r a b → (b = a ↔ p a)) (hr : List.Forall₂ r l m) : m = l ↔ ∀ a ∈ l, p a := by
  induction hr with
  | nil => simp
  | cons hab _ ih => rw [List.cons_eq_cons, h _ _ hab, ih, List.forall_mem_cons]

mutual

/-- What is read back is the value iff all its written parts are kept. By induction on the shape. -/
theorem eq_iff_of_readsBack (shape : Shape) (depth : Nat) (v w : shape.Data)
    (h : ReadsBack shape depth v w) : w = v ↔ AllWritten IsKept shape v := by
  cases shape with
  | bool | integer kind | char | text | unit => exact iff_of_true h trivial
  | double =>
    refine ⟨fun hw => hw ▸ h, fun hkept => ?_⟩
    exact Except.ok.inj (h.symm.trans hkept)
  | variants names =>
    refine ⟨fun hw => hw ▸ h, fun hkept => ?_⟩
    exact Option.some.inj (h.symm.trans hkept)
  | tuple fields =>
    obtain ⟨d, -, h⟩ := h
    exact (eq_iff_of_fieldsReadBack fields d v w h).trans ⟨fun hall => ⟨trivial, hall⟩, And.right⟩
  | record fields =>
    obtain ⟨d, -, -, h⟩ := h
    exact (eq_iff_of_fieldsReadBack fields d v w h).trans ⟨fun hall => ⟨trivial, hall⟩, And.right⟩
  | list item =>
    obtain ⟨d, -, h⟩ := h
    exact (eq_iff_of_forall₂ (eq_iff_of_readsBack item d) h).trans
      ⟨fun hall => ⟨trivial, hall⟩, And.right⟩
  | map item =>
    obtain ⟨d, -, h⟩ := h
    refine SortedMap.ext_iff.trans
      ((eq_iff_of_forall₂ ?_ h).trans ⟨fun hall => ⟨trivial, hall⟩, And.right⟩)
    intro e e' he
    have := eq_iff_of_readsBack item d e.2 e'.2 he.2
    rw [Prod.ext_iff, this]
    simp [he.1]
  | option item =>
    cases v with
    | none => exact iff_of_true h ⟨trivial, trivial⟩
    | some v =>
      by_cases hnull : IsNull item v
      · -- The value is lost, and the option is one of the parts that are not kept.
        rw [readsBack_some_of_isNull depth w hnull] at h
        refine iff_of_false ?_ fun hall => hall.1 hnull
        rw [h]
        nofun
      · rw [readsBack_some_of_not_isNull depth w hnull] at h
        obtain ⟨a, ha, rfl⟩ := h
        have hitem := eq_iff_of_readsBack item depth v a ha
        refine Option.some_inj.trans (hitem.trans ⟨fun hall => ⟨hnull, fun _ => hall⟩, ?_⟩)
        exact fun hall => hall.2 hnull
  | nest => exact iff_of_true h.2 trivial

theorem eq_iff_of_fieldsReadBack (fields : Fields) (depth : Nat) (v w : fields.Data)
    (h : FieldsReadBack fields depth v w) : w = v ↔ AllFieldsWritten IsKept fields v := by
  cases fields with
  | nil => exact iff_of_true rfl trivial
  | cons name shape rest =>
    have hfirst := eq_iff_of_readsBack shape depth v.1 w.1 h.1
    have hothers := eq_iff_of_fieldsReadBack rest depth v.2 w.2 h.2
    exact Prod.ext_iff.trans (and_congr hfirst hothers)

end

/-! ### What cannot be written -/

theorem isFinite_of_read {x y : Double} (h : read .double (writeDouble x) = .ok y) :
    x.isFinite = true := by
  cases hx : x.isFinite with
  | true => rfl
  | false =>
    have hnull : read .double (Bytes.ofText "null") = .error .mismatched := rfl
    rw [writeDouble_of_not_isFinite hx, hnull] at h
    cases h

theorem forall_mem_of_forall₂ {α : Type} {p : α → Prop} {r : α → α → Prop} {l m : List α}
    (h : ∀ a b, r a b → p a) (hr : List.Forall₂ r l m) : ∀ a ∈ l, p a := by
  induction hr with
  | nil => simp
  | cons hab _ ih => exact List.forall_mem_cons.2 ⟨h _ _ hab, ih⟩

mutual

/-- Where a double that is not finite is written, nothing is read back. By induction on the shape.
-/
theorem areFinite_of_readsBack (shape : Shape) (depth : Nat) (v w : shape.Data)
    (h : ReadsBack shape depth v w) : AllWritten IsFinite shape v := by
  cases shape with
  | bool | integer kind | char | text | unit | variants names | nest => trivial
  | double => exact isFinite_of_read h
  | tuple fields =>
    obtain ⟨d, -, h⟩ := h
    exact ⟨trivial, areFinite_of_fieldsReadBack fields d v w h⟩
  | record fields =>
    obtain ⟨d, -, -, h⟩ := h
    exact ⟨trivial, areFinite_of_fieldsReadBack fields d v w h⟩
  | list item =>
    obtain ⟨d, -, h⟩ := h
    exact ⟨trivial, forall_mem_of_forall₂ (areFinite_of_readsBack item d) h⟩
  | map item =>
    obtain ⟨d, -, h⟩ := h
    refine ⟨trivial, forall_mem_of_forall₂ ?_ h⟩
    exact fun e e' he => areFinite_of_readsBack item d e.2 e'.2 he.2
  | option item =>
    cases v with
    | none => exact ⟨trivial, trivial⟩
    | some v =>
      refine ⟨trivial, fun hnull => ?_⟩
      rw [readsBack_some_of_not_isNull depth w hnull] at h
      obtain ⟨a, ha, -⟩ := h
      exact areFinite_of_readsBack item depth v a ha

theorem areFinite_of_fieldsReadBack (fields : Fields) (depth : Nat) (v w : fields.Data)
    (h : FieldsReadBack fields depth v w) : AllFieldsWritten IsFinite fields v := by
  cases fields with
  | nil => trivial
  | cons name shape rest =>
    exact ⟨areFinite_of_readsBack shape depth v.1 w.1 h.1,
      areFinite_of_fieldsReadBack rest depth v.2 w.2 h.2⟩

end

end CommandWire.Json
