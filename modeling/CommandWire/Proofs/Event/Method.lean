import CommandWire.Event.Variant
import CommandWire.Proofs.Codec.Primitive
import CommandWire.Proofs.Frame.Fields
import CommandWire.Proofs.Method.Table

/-!
# The language of methods

After the application a frame says which method is called. How it does so depends on the version:

    default : [interface] [method] [number of parameters] [parameter type]*
    v1      : [index, two bytes, most significant first]

where each name is a field of its own. `IsMethod` is this language. Both variants read exactly its
words (`readMethod_reads`), and what they write of a method that the table has an index for is a
word for that method (`isMethod_of_writeMethod`). So it is read as that method in front of anything
(`readMethod_writeMethod`).
-/

namespace CommandWire

/-- The built-in variant of a version. -/
def WireVersion.variant : WireVersion → Variant
  | .default => .named
  | .v1 => .indexed

@[simp] theorem WireVersion.tag_variant (v : WireVersion) : v.variant.tag = v.tag := by
  cases v <;> rfl

/-- The language of methods in a version, for a peer that knows some methods. -/
inductive IsMethod (methods : MethodDirectory) : WireVersion → Bytes → Method → Prop
  | byName {i n ps : Bytes} {interface name : String} {types : List String} {m : Method} :
      IsName i interface → IsName n name → types.length < 256 → AreNames ps types →
      methods.bySignature interface name types = some m →
      IsMethod methods .default (i ++ n ++ UInt8.ofNat types.length :: ps) m
  | byIndex {index : Int16} {m : Method} :
      methods.byIndex index = some m → IsMethod methods .v1 (shortBytes index) m

namespace Variant

open FrameRead FrameWrite

/-! ### Reading -/

theorem readParameters_reads (count : Nat) :
    (readParameters count).Reads fun word names => AreNames word names ∧ names.length = count := by
  induction count with
  | zero =>
    refine (Reads.pure []).congr fun word names => ⟨?_, ?_⟩
    · intro h
      obtain ⟨rfl, rfl⟩ := h
      exact ⟨.nil, rfl⟩
    · intro h
      obtain ⟨_ | _, hl⟩ := h
      · exact ⟨rfl, rfl⟩
      · cases hl
  | succ count ih =>
    refine ((name_reads _).bind fun name => ih.bind fun names => .pure (name :: names)).congr ?_
    intro word names
    constructor
    · intro h
      obtain ⟨name, u, _, rfl, hu, names, v, _, rfl, ⟨hv, rfl⟩, rfl, rfl⟩ := h
      rw [List.append_nil]
      exact ⟨.cons hu hv, rfl⟩
    · intro h
      obtain ⟨_ | ⟨hu, hv⟩, hl⟩ := h
      · cases hl
      · refine ⟨_, _, _, rfl, hu, _, _, [], (List.append_nil _).symm, ⟨hv, ?_⟩, rfl, rfl⟩
        exact Nat.succ.inj hl

theorem readByName_reads (methods : MethodDirectory) :
    (readByName methods).Reads (IsMethod methods .default) := by
  refine ((name_reads _).bind fun interface => (name_reads _).bind fun name =>
    (byte_reads _).bind fun count => (readParameters_reads _).bind fun types =>
      .ofOption (methods.bySignature interface name types)
        (fun h => by rw [h]) fun _ h => by rw [h]).congr ?_
  intro word m
  constructor
  · intro h
    obtain ⟨interface, i, _, rfl, hi, name, n, _, rfl, hn, count, _, _, rfl, rfl, types, ps, _, rfl,
      ⟨hps, hl⟩, rfl, hm⟩ := h
    -- The number has been read from one byte.
    have short : types.length < 256 := hl ▸ count.toNat_lt
    rw [List.append_nil, ← UInt8.ofNat_toNat (x := count), ← hl, ← List.append_assoc]
    exact .byName hi hn short hps hm
  · intro h
    rcases h with ⟨hi, hn, short, hps, hm⟩ | _
    refine ⟨_, _, _, List.append_assoc .., hi, _, _, _, rfl, hn, _, [_], _, rfl, rfl, _, _, [],
      (List.append_nil _).symm, ⟨hps, ?_⟩, rfl, hm⟩
    exact (UInt8.toNat_ofNat_of_lt' short).symm

theorem readByIndex_reads (methods : MethodDirectory) :
    (readByIndex methods).Reads (IsMethod methods .v1) := by
  refine ((take_reads _ 2).bind fun bytes =>
    .ofOption (methods.byIndex (ofShortBytes bytes))
      (fun h => by dsimp only; rw [h]) fun _ h => by dsimp only; rw [h]).congr ?_
  intro word m
  constructor
  · intro h
    obtain ⟨_, bytes, _, rfl, ⟨rfl, hl⟩, rfl, hm⟩ := h
    rw [List.append_nil, ← shortBytes_ofShortBytes hl]
    exact .byIndex hm
  · intro h
    rcases h with _ | ⟨hm⟩
    refine ⟨_, _, [], (List.append_nil _).symm, ⟨rfl, length_shortBytes _⟩, rfl, ?_⟩
    rwa [ofShortBytes_shortBytes]

/-- The variant of a version reads the methods in that version. -/
theorem readMethod_reads (methods : MethodDirectory) (v : WireVersion) :
    (v.variant.readMethod methods).Reads (IsMethod methods v) := by
  cases v with
  | default => exact readByName_reads methods
  | v1 => exact readByIndex_reads methods

/-! ### Writing -/

theorem writeParameters_writes (parameters : List Parameter) :
    (writeParameters parameters).Writes fun word _ =>
      AreNames word (parameters.map (·.wireType)) := by
  induction parameters with
  | nil =>
    refine (Writes.pure ()).congr fun word _ => ⟨?_, ?_⟩
    · intro h
      obtain ⟨rfl, _⟩ := h
      exact .nil
    · intro h
      cases h
      exact ⟨rfl, rfl⟩
  | cons p parameters ih =>
    refine ((name_writes _ p.wireType).bind fun _ => ih).congr fun word _ => ⟨?_, ?_⟩
    · intro h
      obtain ⟨_, u, v, rfl, hu, hv⟩ := h
      exact .cons hu hv
    · intro h
      cases h
      next hu hv => exact ⟨(), _, _, rfl, hu, hv⟩

/-- What is written by name: the simple name of the interface and all other names in full. -/
theorem writeByName_writes (methods : MethodDirectory) (m : Method) :
    (writeByName methods m).Writes fun word _ => ∃ i n ps, IsName i m.wireInterface ∧
      IsName n m.name ∧ m.wireTypes.length < 256 ∧ AreNames ps m.wireTypes ∧
      word = i ++ n ++ UInt8.ofNat m.wireTypes.length :: ps := by
  have hl : m.wireTypes.length = m.parameters.length := List.length_map _
  have counted : Writes (do
      if 255 < m.parameters.length then throw (.tooManyParameters m.text m.parameters.length)
      byte (.ofNat m.parameters.length)
      writeParameters m.parameters) fun word _ => m.wireTypes.length < 256 ∧
        ∃ ps, AreNames ps m.wireTypes ∧ word = UInt8.ofNat m.wireTypes.length :: ps := by
    by_cases long : 255 < m.parameters.length
    · rw [if_pos long]
      -- The refusal is the first part of a sequence, and no word has a first part for it.
      refine ((Writes.throw _).bind (fun _ => (byte_writes _).bind fun _ =>
        writeParameters_writes _)).congr fun word _ => ⟨?_, ?_⟩
      · intro h
        obtain ⟨_, _, _, _, ⟨⟩, _⟩ := h
      · intro h
        obtain ⟨short, _⟩ := h
        omega
    · rw [if_neg long]
      refine ((byte_writes _).bind fun _ => writeParameters_writes _).congr
        fun word _ => ⟨?_, ?_⟩
      · intro h
        obtain ⟨_, _, ps, rfl, rfl, hps⟩ := h
        exact ⟨by omega, ps, hps, by rw [hl]; rfl⟩
      · intro h
        obtain ⟨_, ps, hps, rfl⟩ := h
        exact ⟨(), [_], ps, rfl, congrArg (fun n => [UInt8.ofNat n]) hl, hps⟩
  refine ((name_writes _ m.wireInterface).bind fun _ => (name_writes _ m.name).bind fun _ =>
    counted).congr fun word _ => ⟨?_, ?_⟩
  · intro h
    obtain ⟨_, i, _, rfl, hi, _, n, _, rfl, hn, short, ps, hps, rfl⟩ := h
    exact ⟨i, n, ps, hi, hn, short, hps, (List.append_assoc ..).symm⟩
  · intro h
    obtain ⟨i, n, ps, hi, hn, short, hps, rfl⟩ := h
    exact ⟨(), i, _, List.append_assoc .., hi, (), n, _, rfl, hn, short, ps, hps, rfl⟩

end Variant

/-- **What is written can be read.** What a variant writes of a method that the table has an index
for is a word for just this method. -/
theorem isMethod_of_writeMethod {t : MethodTable} (ht : t.Valid) {v : WireVersion} {m : Method}
    (hm : (t.index? m).isSome) {written out : Bytes}
    (h : (v.variant.writeMethod t.directory m).run written = (.ok (), out)) :
    ∃ word, out = written ++ word ∧ IsMethod t.directory v word m := by
  obtain ⟨index, hi⟩ := Option.isSome_iff_exists.1 hm
  cases v with
  | default =>
    obtain ⟨_, rfl, i, n, ps, hi', hn, short, hps, rfl⟩ :=
      (Variant.writeByName_writes t.directory m _ _ _).1 h
    exact ⟨_, rfl, .byName hi' hn short hps (MethodTable.bySignature_of_index? ht hi)⟩
  | v1 =>
    have hw : WireVersion.v1.variant.writeMethod t.directory m =
        FrameWrite.raw (shortBytes index) := by
      show Variant.writeByIndex t.directory m = _
      rw [Variant.writeByIndex, show t.directory.index? m = some index from hi]
    rw [hw] at h
    obtain ⟨_, rfl, rfl⟩ := (FrameWrite.raw_writes _ _ _ _).1 h
    exact ⟨_, rfl, .byIndex (MethodTable.get?_of_index? ht hi)⟩

/-- **What says which method is called ends by itself.** Over every table that insertions lead to,
be they accepted or refused, what a variant writes of an indexed method is read as just this method.
The reading begins behind whatever has been written before, and stops in front of whatever follows,
so it goes on in the same way for all of it. -/
theorem readMethod_writeMethod (inserted : List Method) (v : WireVersion) {m : Method}
    (hm : ((MethodTable.empty.insertAll inserted).index? m).isSome) {written out : Bytes}
    (h : (v.variant.writeMethod (MethodTable.empty.insertAll inserted).directory m).run written =
      (.ok (), out)) :
    written <+: out ∧ ∀ rest,
      (v.variant.readMethod (MethodTable.empty.insertAll inserted).directory).run
        ((out ++ rest).drop written.length) = (.ok m, (out ++ rest).drop out.length) := by
  have ht := MethodTable.valid_insertAll MethodTable.valid_empty inserted
  obtain ⟨word, rfl, hword⟩ := isMethod_of_writeMethod ht hm h
  refine ⟨List.prefix_append written word, fun rest => ?_⟩
  rw [List.drop_left, List.append_assoc, List.drop_left]
  exact (Variant.readMethod_reads _ v _ m rest).2 ⟨word, rfl, hword⟩

/-- A method with one number. -/
def getMethod : Method := ⟨"io.Commands", "get", [⟨"long", .of Int64⟩]⟩

/-- By name and by index, behind two bytes and in front of two others. The table has refused a
second method of the same signature. -/
theorem readMethod_writeMethod_getMethod :
    let t := MethodTable.empty.insertAll [getMethod, { getMethod with interface := "Commands" }]
    let byName : Bytes :=
      [8, 67, 111, 109, 109, 97, 110, 100, 115, 3, 103, 101, 116, 1, 4, 108, 111, 110, 103]
    (t.index? getMethod).isSome ∧
      (Variant.writeByName t.directory getMethod).run [1, 2] = (.ok (), [1, 2] ++ byName) ∧
      (Variant.readByName t.directory).run (byName ++ [3, 4]) = (.ok getMethod, [3, 4]) ∧
      (Variant.writeByIndex t.directory getMethod).run [1, 2] = (.ok (), [1, 2, 0, 0]) ∧
      (Variant.readByIndex t.directory).run [0, 0, 3, 4] = (.ok getMethod, [3, 4]) := by
  intro t byName
  have hsame : ({ getMethod with interface := "Commands" } : Method).signature =
      getMethod.signature := by decide
  have hne : getMethod ≠ { getMethod with interface := "Commands" } := by decide
  have hindex : t.index? getMethod = some 0 := by
    simp [t, MethodTable.insertAll, MethodTable.insert, MethodTable.empty, MethodTable.capacity,
      MethodTable.index?, hsame, hne]
  have hm : (t.index? getMethod).isSome := by rw [hindex]; rfl
  have hbyName : (Variant.writeByName t.directory getMethod).run [1, 2] =
      (.ok (), [1, 2] ++ byName) := rfl
  have hbyIndex : (Variant.writeByIndex t.directory getMethod).run [1, 2] =
      (.ok (), [1, 2, 0, 0]) := by
    rw [Variant.writeByIndex, show t.directory.index? getMethod = some 0 from hindex]
    rfl
  exact ⟨hm, hbyName, (readMethod_writeMethod _ .default hm hbyName).2 [3, 4], hbyIndex,
    (readMethod_writeMethod _ .v1 hm hbyIndex).2 [3, 4]⟩

end CommandWire
