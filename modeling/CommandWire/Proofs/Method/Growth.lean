import CommandWire.Proofs.Method.Table

/-!
# Tables that have grown

A method table is only ever appended to. Whatever is inserted, be it accepted or refused, no method
leaves its place and no signature changes its position (`insertAll_extends`), and no invariant of the
table is needed for that: a signature is entered only where there has been none.

So who knows the later table knows all that was known from the former one (`Extends.directory`), and
what goes by a known signature is answered as before, even if the answer is no (`Extends.index?_eq`).
-/

namespace CommandWire

/-- Whatever is found in the former directory is found in this one, and is the same. -/
structure MethodDirectory.Extends (methods former : MethodDirectory) : Prop where
  byIndex : ∀ {index : Int16} {m : Method}, former.byIndex index = some m →
    methods.byIndex index = some m
  bySignature : ∀ {interface name : String} {types : List String} {m : Method},
    former.bySignature interface name types = some m →
    methods.bySignature interface name types = some m
  index? : ∀ {m : Method} {index : Int16}, former.index? m = some index →
    methods.index? m = some index

namespace MethodTable

/-- Every method and every signature of the former table has its position in this one. -/
structure Extends (t former : MethodTable) : Prop where
  methods : ∀ {i : Nat} {m : Method}, former.methods[i]? = some m → t.methods[i]? = some m
  positions : ∀ {s : Signature} {i : Nat}, former.positions[s]? = some i →
    t.positions[s]? = some i

theorem Extends.refl (t : MethodTable) : t.Extends t := ⟨fun h => h, fun h => h⟩

theorem Extends.trans {t middle former : MethodTable} (h : t.Extends middle)
    (h' : middle.Extends former) : t.Extends former where
  methods hm := h.methods (h'.methods hm)
  positions hs := h.positions (h'.positions hs)

/-! ### Insertions -/

/-- To append a method with a new signature moves nothing. -/
theorem push_extends {t : MethodTable} {m : Method} (hnew : t.positions[m.signature]? = none) :
    Extends ⟨t.methods.push m, t.positions.insert m.signature t.methods.size⟩ t where
  methods {i m'} hm := by
    have hi : i < t.methods.size := (Array.getElem?_eq_some_iff.1 hm).1
    rw [Array.getElem?_push, if_neg (Nat.ne_of_lt hi)]
    exact hm
  positions {s i} hs := by
    have hother : m.signature ≠ s := by
      rintro rfl
      rw [hnew] at hs
      cases hs
    rw [Std.HashMap.getElem?_insert, if_neg (by simpa using hother)]
    exact hs

theorem insert_extends (t : MethodTable) (m : Method) : (t.insert m).2.Extends t := by
  rcases t.insert_cases m with ⟨_, _, _, h⟩ | ⟨_, _, _, h⟩ | ⟨hnew, _, h⟩ | ⟨_, _, h⟩
  · rw [h]
    exact .refl t
  · rw [h]
    exact .refl t
  · rw [h]
    exact push_extends hnew
  · rw [h]
    exact .refl t

theorem insertAll_extends (t : MethodTable) (methods : List Method) :
    (t.insertAll methods).Extends t := by
  induction methods generalizing t with
  | nil => exact .refl t
  | cons m methods ih => exact (ih (t.insert m).2).trans (t.insert_extends m)

/-! ### Look-ups -/

namespace Extends

variable {t former : MethodTable}

theorem get? (h : t.Extends former) {index : Int16} {m : Method}
    (hm : former.get? index = some m) : t.get? index = some m := by
  rw [MethodTable.get?] at hm ⊢
  split at hm
  next => cases hm
  next hnonneg =>
    rw [if_neg hnonneg]
    exact h.methods hm

theorem bySignature (h : t.Extends former) {interface name : String} {types : List String}
    {m : Method} (hm : former.bySignature interface name types = some m) :
    t.bySignature interface name types = some m := by
  rw [MethodTable.bySignature] at hm ⊢
  split at hm
  next i hi =>
    rw [h.positions hi]
    exact h.methods hm
  next => cases hm

/-- A method by whose names the former table finds some method, be it another one, has the index
that it had, or still none. -/
theorem index?_eq (h : t.Extends former) {m : Method}
    (hm : (former.bySignature m.interface m.name m.wireTypes).isSome) :
    t.index? m = former.index? m := by
  obtain ⟨found, hfound⟩ := Option.isSome_iff_exists.1 hm
  rw [MethodTable.bySignature] at hfound
  split at hfound
  next i hi =>
    replace hi : former.positions[m.signature]? = some i := hi
    rw [MethodTable.index?, MethodTable.index?, hi, h.positions hi]
    dsimp only
    rw [hfound, h.methods hfound]
  next => cases hfound

end Extends

/-- A method with an index is found by its names. -/
theorem isSome_bySignature_of_index? {t : MethodTable} {m : Method} {index : Int16}
    (h : t.index? m = some index) : (t.bySignature m.interface m.name m.wireTypes).isSome := by
  rw [index?] at h
  split at h
  next i hi =>
    split at h
    next hm =>
      replace hi : t.positions[Signature.of m.interface m.name m.wireTypes]? = some i := hi
      rw [bySignature, hi]
      exact Option.isSome_of_eq_some hm
    next => cases h
  next => cases h

theorem Extends.directory {t former : MethodTable} (h : t.Extends former) :
    t.directory.Extends former.directory where
  byIndex := h.get?
  bySignature := h.bySignature
  index? hi := (h.index?_eq (isSome_bySignature_of_index? hi)).trans hi

end MethodTable

end CommandWire
