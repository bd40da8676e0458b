import Mathlib.Data.List.Nodup
import CommandWire.Proofs.Method.Growth
import CommandWire.Proofs.Method.Lookup

/-!
# Insertions in a row

What an insertion answers, and whether it changes the table, depends on the methods that are indexed
and on nothing else (`InsertsBySignature`): a method with a new signature is appended while there is
room, a method that is indexed keeps its index even in a full table, and every other one is refused
and leaves the table as it was.

So the answers to a row of insertions can be read off the row (`insertEach`): the table consists of
the methods that are accepted, in the order in which each came first (`methods_insertAll`), each is
answered its place there (`position_of_insertEach`), and the table that is made of all of them at
once exists if no answer is a refusal (`ofMethods_eq`).
-/

namespace CommandWire.MethodTable

/-! ### One insertion -/

/-- What the insertion of a method does to a table, said from the methods that are indexed. -/
structure InsertsBySignature (t : MethodTable) (m : Method) : Prop where
  appends : (∀ k ∈ t.methods, k.signature ≠ m.signature) → t.size ≤ 32767 →
    ∃ index : Int16, index.toInt = t.size ∧ t.insert m =
      (.ok index, ⟨t.methods.push m, t.positions.insert m.signature t.size⟩)
  /-- An indexed method keeps its index, however full the table is. -/
  keeps : m ∈ t.methods → ∃ (i : Nat) (index : Int16), index.toInt = i ∧
    t.methods[i]? = some m ∧ t.insert m = (.ok index, t)
  collides : ∀ k ∈ t.methods, k.signature = m.signature → k ≠ m → t.insert m =
    (.error (.invalidConfig
      (m.text ++ " collides with an already indexed method of the same wire signature")), t)
  full : (∀ k ∈ t.methods, k.signature ≠ m.signature) → t.size = 32768 → t.insert m =
    (.error (.invalidConfig ("method table is full, cannot index " ++ m.text)), t)

variable {t : MethodTable}

/-- The map has no entry for a signature that no method has. -/
theorem position_eq_none (ht : t.Valid) {s : Signature}
    (h : ∀ k ∈ t.methods, k.signature ≠ s) : t.positions[s]? = none := by
  rw [Option.eq_none_iff_forall_ne_some]
  intro i hi
  obtain ⟨k, hk, hs⟩ := (ht.position_iff s i).1 hi
  exact h k (Array.mem_of_getElem? hk) hs

/-- The map has the position of every method. -/
theorem exists_position (ht : t.Valid) {k : Method} (hk : k ∈ t.methods) :
    ∃ i, t.methods[i]? = some k ∧ t.positions[k.signature]? = some i := by
  obtain ⟨i, hi⟩ := Array.mem_iff_getElem?.1 hk
  exact ⟨i, hi, (ht.position_iff k.signature i).2 ⟨k, hi, rfl⟩⟩

theorem Valid.insertsBySignature (ht : t.Valid) (m : Method) : t.InsertsBySignature m where
  appends hnew hroom := by
    have hcap : t.methods.size < capacity := Nat.lt_succ_of_le hroom
    refine ⟨.ofNat t.methods.size, Int16.toInt_ofNat_of_lt hcap, ?_⟩
    rw [insert, position_eq_none ht hnew]
    exact if_pos hcap
  keeps hm := by
    obtain ⟨i, hi, hp⟩ := exists_position ht hm
    have hlt : i < t.methods.size := (Array.getElem?_eq_some_iff.1 hi).1
    refine ⟨i, .ofNat i, Int16.toInt_ofNat_of_lt (Nat.lt_of_lt_of_le hlt ht.size_le), hi, ?_⟩
    rw [insert, hp]
    exact if_pos hi
  collides k hk hs hne := by
    obtain ⟨i, hi, hp⟩ := exists_position ht hk
    rw [insert, ← hs, hp]
    refine if_neg ?_
    rw [hi]
    exact fun h => hne (Option.some.inj h)
  full hnew hfull := by
    rw [insert, position_eq_none ht hnew]
    exact if_neg (Nat.not_lt_of_le (Nat.le_of_eq hfull.symm))

/-! ### A row of insertions -/

/-- Inserts one method after the other, going on after those that are refused: what is answered to
each, and the table in the end. -/
def insertEach (t : MethodTable) : List Method → List (Except CodecError Int16) × MethodTable
  | [] => ([], t)
  | m :: methods =>
    let (results, last) := (t.insert m).2.insertEach methods
    ((t.insert m).1 :: results, last)

/-- The methods that were not refused. -/
def accepted (methods : List Method) (results : List (Except CodecError Int16)) : List Method :=
  (methods.zip results).filterMap fun
    | (m, .ok _) => some m
    | (_, .error _) => none

/-- The first refusal. -/
def refusal? (results : List (Except CodecError Int16)) : Option CodecError :=
  results.findSome? fun
    | .ok _ => none
    | .error failure => some failure

theorem insertEach_snd (t : MethodTable) (methods : List Method) :
    (t.insertEach methods).2 = t.insertAll methods := by
  induction methods generalizing t with
  | nil => rfl
  | cons m methods ih => exact ih (t.insert m).2

theorem foldlM_insert (t : MethodTable) (methods : List Method) :
    methods.foldlM (fun t m => match t.insert m with
      | (.ok _, t) => Except.ok t
      | (.error failure, _) => .error failure) t =
      match refusal? (t.insertEach methods).1 with
      | some failure => .error failure
      | none => .ok (t.insertAll methods) := by
  induction methods generalizing t with
  | nil => rfl
  | cons m methods ih =>
    rw [List.foldlM_cons, insertEach, insertAll, List.foldl_cons, refusal?, List.findSome?_cons]
    match t.insert m with
    | (.ok _, t') => exact ih t'
    | (.error _, _) => rfl

/-- The table of some methods is the one after the row of insertions, unless one of them is
refused. -/
theorem ofMethods_eq (methods : List Method) : ofMethods methods =
    match refusal? (empty.insertEach methods).1 with
    | some failure => .error failure
    | none => .ok (empty.insertAll methods) :=
  foldlM_insert empty methods

/-! ### Indices -/

theorem eraseDups_of_nodup {l : List Method} (h : l.Nodup) : l.eraseDups = l := by
  induction l with
  | nil => rfl
  | cons m l ih =>
    obtain ⟨hm, hl⟩ := List.nodup_cons.1 h
    have hfilter : l.filter (fun k => !k == m) = l := by
      rw [List.filter_eq_self]
      intro k hk
      simpa using fun hkm : k = m => hm (hkm ▸ hk)
    rw [List.eraseDups_cons, hfilter, ih hl]

theorem eraseDups_append_cons_of_mem {m : Method} {l : List Method} (h : m ∈ l)
    (rest : List Method) : (l ++ m :: rest).eraseDups = (l ++ rest).eraseDups := by
  have hrest : (m :: rest).removeAll l = rest.removeAll l :=
    List.filter_cons_of_neg (by simpa using h)
  rw [List.eraseDups_append, List.eraseDups_append, hrest]

theorem methods_nodup (ht : t.Valid) : t.methods.toList.Nodup :=
  (signatures_nodup ht).of_map Method.signature

/-- By induction on the row: an accepted method is appended or has come before, and a refused one
changes nothing. -/
theorem methods_insertAll (ht : t.Valid) (methods : List Method) :
    (t.insertAll methods).methods.toList =
      (t.methods.toList ++ accepted methods (t.insertEach methods).1).eraseDups := by
  induction methods generalizing t with
  | nil =>
    show t.methods.toList = (t.methods.toList ++ []).eraseDups
    rw [List.append_nil, eraseDups_of_nodup (methods_nodup ht)]
  | cons m methods ih =>
    have hrest := ih (valid_insert ht m)
    rw [insertEach, insertAll, List.foldl_cons, ← insertAll, hrest, accepted, accepted,
      List.zip_cons_cons]
    rcases t.insert_cases m with ⟨_, _, hm, h⟩ | ⟨_, _, _, h⟩ | ⟨_, _, h⟩ | ⟨_, _, h⟩
    · have hmem : m ∈ t.methods.toList := Array.mem_toList_iff.2 (Array.mem_of_getElem? hm)
      rw [h]
      exact (eraseDups_append_cons_of_mem hmem _).symm
    · rw [h]
      rfl
    · rw [h, Array.toList_push, List.append_assoc]
      rfl
    · rw [h]
      rfl

/-- The answer to a method that is not refused is where it stands then. -/
theorem position_of_insert (ht : t.Valid) {m : Method} {index : Int16}
    (h : (t.insert m).1 = .ok index) :
    ∃ i : Nat, index.toInt = i ∧ (t.insert m).2.methods[i]? = some m := by
  rcases t.insert_cases m with ⟨i, _, hm, he⟩ | ⟨_, _, _, he⟩ | ⟨_, hroom, he⟩ | ⟨_, _, he⟩
  · rw [he] at h ⊢
    cases h
    have hlt : i < t.methods.size := (Array.getElem?_eq_some_iff.1 hm).1
    exact ⟨i, Int16.toInt_ofNat_of_lt (Nat.lt_of_lt_of_le hlt ht.size_le), hm⟩
  · rw [he] at h
    cases h
  · rw [he] at h ⊢
    cases h
    exact ⟨_, Int16.toInt_ofNat_of_lt hroom, Array.getElem?_push_size⟩
  · rw [he] at h
    cases h

/-- What is inserted later moves nothing. -/
theorem position_of_insertEach (ht : t.Valid) {methods : List Method} {m : Method}
    {index : Int16} (h : (m, .ok index) ∈ methods.zip (t.insertEach methods).1) :
    ∃ i : Nat, index.toInt = i ∧ (t.insertAll methods).methods[i]? = some m := by
  induction methods generalizing t with
  | nil => cases h
  | cons first methods ih =>
    rw [insertEach, List.zip_cons_cons, List.mem_cons] at h
    rcases h with h | h
    · obtain ⟨rfl, hindex⟩ := Prod.mk.inj h
      obtain ⟨i, hi, hm⟩ := position_of_insert ht hindex.symm
      exact ⟨i, hi, (insertAll_extends _ methods).methods hm⟩
    · exact ih (valid_insert ht first) h

theorem length_insertEach (t : MethodTable) (methods : List Method) :
    (t.insertEach methods).1.length = methods.length := by
  induction methods generalizing t with
  | nil => rfl
  | cons m methods ih =>
    rw [insertEach, List.length_cons, List.length_cons, ih]

/-- **A method has the number of its first coming.** In every table that insertions lead to, the
methods that are indexed decide what one more insertion does. After a row of insertions, the table
consists of the methods that were accepted, in the order in which each came first; the answer to
each of them is its place in that order. The table of the row exists if nothing is refused. -/
theorem insertions_number_firsts (methods : List Method) :
    (∀ m, (empty.insertAll methods).InsertsBySignature m) ∧
    let (results, t) := empty.insertEach methods
    results.length = methods.length ∧ t = empty.insertAll methods ∧
    t.methods.toList = (accepted methods results).eraseDups ∧
    (∀ m (index : Int16), (m, .ok index) ∈ methods.zip results → ∃ i : Nat, index.toInt = i ∧
      (accepted methods results).eraseDups[i]? = some m) ∧
    ofMethods methods = match refusal? results with
      | some failure => .error failure
      | none => .ok t := by
  have hvalid := valid_insertAll valid_empty methods
  have hmethods := methods_insertAll valid_empty methods
  rw [show empty.methods.toList = [] from rfl, List.nil_append] at hmethods
  refine ⟨hvalid.insertsBySignature, length_insertEach empty methods,
    insertEach_snd empty methods, ?_, ?_, ?_⟩
  · rw [insertEach_snd, hmethods]
  · intro m index h
    obtain ⟨i, hi, hm⟩ := position_of_insertEach valid_empty h
    refine ⟨i, hi, ?_⟩
    rw [← hmethods, Array.getElem?_toList, hm]
  · rw [ofMethods_eq]
    rw [insertEach_snd]

/-- The first method has index zero, and one of the same signature from another interface is refused
after it. -/
theorem insertions_number_firsts_namesake :
    let m : Method := ⟨"a.Commands", "set", []⟩
    let namesake : Method := ⟨"b.Commands", "set", []⟩
    (∃ index : Int16, index.toInt = 0 ∧ (empty.insert m).1 = .ok index) ∧
    m ∈ (empty.insertAll [m]).methods ∧
    ((empty.insertAll [m]).insert namesake).2 = empty.insertAll [m] := by
  intro m namesake
  obtain ⟨index, hindex, h⟩ :=
    ((insertions_number_firsts []).1 m).appends (fun _ hk => nomatch hk) (by decide)
  replace h : empty.insert m = (.ok index, _) := h
  have hm : m ∈ (empty.insertAll [m]).methods := by
    show m ∈ (empty.insert m).2.methods
    rw [h]
    exact Array.mem_push_self
  have hcollides := ((insertions_number_firsts [m]).1 namesake).collides m hm (by decide) (by decide)
  refine ⟨⟨index, hindex, congrArg Prod.fst h⟩, hm, ?_⟩
  rw [hcollides]

/-! ### Room for all -/

/-- While there is room, methods with distinct signatures are all appended. -/
theorem methods_insertAll_of_distinct (ht : t.Valid) {methods : List Method}
    (hdistinct : ((t.methods.toList ++ methods).map Method.signature).Nodup)
    (hroom : t.size + methods.length ≤ capacity) :
    (t.insertAll methods).methods.toList = t.methods.toList ++ methods := by
  induction methods generalizing t with
  | nil => exact (List.append_nil _).symm
  | cons m methods ih =>
    have hnew : ∀ k ∈ t.methods, k.signature ≠ m.signature := by
      intro k hk hs
      rw [List.map_append, List.map_cons, List.nodup_append] at hdistinct
      exact hdistinct.2.2 _ (List.mem_map_of_mem (Array.mem_toList_iff.2 hk)) _
        List.mem_cons_self hs
    rw [List.length_cons] at hroom
    have hsize : t.size ≤ 32767 := by
      rw [capacity] at hroom
      omega
    obtain ⟨_, _, h⟩ := (ht.insertsBySignature m).appends hnew hsize
    have hvalid := valid_insert ht m
    rw [insertAll, List.foldl_cons, ← insertAll]
    rw [h] at hvalid ⊢
    rw [ih hvalid, Array.toList_push, List.append_assoc]
    · rfl
    · rwa [Array.toList_push, List.append_assoc]
    · rw [size, Array.size_push]
      rw [size] at hroom
      omega

/-- There are as many methods as a table can hold. -/
theorem exists_full : ∃ methods, (empty.insertAll methods).size = 32768 := by
  let named (n : Nat) : Method := ⟨"Commands", .ofList (List.replicate n 'a'), []⟩
  let methods := (List.range capacity).map named
  have hlength : methods.length = capacity := by rw [List.length_map, List.length_range]
  have hempty : empty.methods.toList = [] := rfl
  have hdistinct : ((empty.methods.toList ++ methods).map Method.signature).Nodup := by
    rw [hempty, List.nil_append, List.map_map]
    refine List.Pairwise.map _ (fun n n' hne heq => hne ?_) List.nodup_range
    have hname : List.replicate n 'a' = List.replicate n' 'a' :=
      String.ofList_inj.1 (congrArg Signature.method heq)
    simpa using congrArg List.length hname
  have hroom : empty.size + methods.length ≤ capacity :=
    Nat.le_of_eq (by rw [hlength, show empty.size = 0 from rfl, Nat.zero_add])
  refine ⟨methods, ?_⟩
  rw [size, ← Array.length_toList, methods_insertAll_of_distinct valid_empty hdistinct hroom,
    hempty, List.nil_append, hlength, capacity]

end CommandWire.MethodTable
