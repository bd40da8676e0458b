import CommandWire.Proofs.Argument.FixedWidth
import CommandWire.Proofs.Codec.FixedWidth

/-!
# Arguments of fixed width are exact

Points and limits are two numbers of eight bytes, one after the other, and so are exact because the
numbers are. Of the nine bytes of an expiration the last one names the unit, and nearly all bytes
name none: they are an error with the signed number they stand for, and the other eight are not
looked at (`Expiration.ofBytes_cases`).

All codecs of fixed width are put together in `fixedWidth_codecs_exact`.
-/

namespace CommandWire

instance : ExactOrdinal TimeUnit where
  ordinal_eq i u h := by
    obtain ⟨hi, rfl⟩ := Array.getElem?_eq_some_iff.1 h
    have hlt : i < 7 := hi
    have hu : (Ordinal.variants : Array TimeUnit)[i] = TimeUnit.ofIndex ⟨i, hlt⟩ :=
      Array.getElem_ofFn hi
    exact (congrArg Ordinal.ordinal hu).trans
      (congrArg Fin.val (TimeUnit.index_ofIndex ⟨i, hlt⟩))

namespace Codec

/-! ### Two numbers -/

theorem point_hasWidth : point.HasWidth 16 :=
  ofWidth_hasWidth (fun p => by simp [Point.toBytes]) point_carries nofun

theorem point_isExact : point.IsExact := by
  apply ofWidth_isExact_of_value
  intro bytes h
  have hx : (bytes.take 8).length = 8 := by rw [List.length_take, h]; rfl
  have hy : (bytes.drop 8).length = 8 := by rw [List.length_drop, h]
  rw [Point.toBytes, Point.ofBytes, doubleBytes_ofDoubleBytes hx, doubleBytes_ofDoubleBytes hy,
    List.take_append_drop]

theorem limit_hasWidth : limit.HasWidth 16 :=
  ofWidth_hasWidth (fun l => by simp [Limit.toBytes]) limit_carries nofun

theorem limit_isExact : limit.IsExact := by
  apply ofWidth_isExact_of_value
  intro bytes h
  have hoffset : (bytes.take 8).length = 8 := by rw [List.length_take, h]; rfl
  have hcount : (bytes.drop 8).length = 8 := by rw [List.length_drop, h]
  rw [Limit.toBytes, Limit.ofBytes, longBytes_ofLongBytes hoffset, longBytes_ofLongBytes hcount,
    List.take_append_drop]

end Codec

/-! ### A number and a unit -/

namespace Expiration

theorem length_toBytes (e : Expiration) : e.toBytes.length = 9 := by
  rw [toBytes, List.length_append, length_longBytes, Ordinal.length_toBytes]
  rfl

/-- Nine bytes are an expiration if the last one names a unit, and otherwise an ordinal that is
refused. -/
theorem ofBytes_cases {first : Bytes} (h : first.length = 8) (last : UInt8) :
    (∃ unit : TimeUnit, (unit.index : Int) = last.toInt8.toInt ∧ Ordinal.toBytes unit = [last] ∧
      ofBytes (first ++ [last]) = .ok (.value ⟨ofLongBytes first, unit⟩)) ∨
    ((∀ unit : TimeUnit, (unit.index : Int) ≠ last.toInt8.toInt) ∧
      ofBytes (first ++ [last]) =
        .error (.corruptOrdinal (Ordinal.name TimeUnit) last.toInt8.toInt 7)) := by
  have hunit : (Codec.ordinal TimeUnit).decode (some [last]) =
      (Ordinal.ofOrdinal last.toInt8.toInt).map .value := by
    rw [← Ordinal.ofBytes_singleton]
    rfl
  -- The number in front cannot be refused, so all depends on the ordinal.
  rw [ofBytes, List.drop_left' h, List.take_left' h, hunit]
  obtain ⟨i, unit, hi, hget, hok⟩ | ⟨houtside, herror⟩ :=
    Ordinal.ofOrdinal_cases (α := TimeUnit) last.toInt8.toInt
  · have hindex : (unit.index : Nat) = i := ExactOrdinal.ordinal_eq i unit hget
    refine .inl ⟨unit, ?_, ?_, ?_⟩
    · rw [hindex, hi]
    · exact Ordinal.toBytes_of_ofBytes rfl ((Ordinal.ofBytes_singleton last).trans hi) hget
    · rw [hok]
      rfl
  · refine .inr ⟨fun unit hn => ?_, ?_⟩
    · have hlt : (unit.index : Nat) < 7 := unit.index.isLt
      have hsize : (Ordinal.variants : Array TimeUnit).size = 7 := rfl
      rw [← hn] at houtside
      omega
    · rw [herror]
      rfl

/-- Nine bytes are the encoding of what they are read as, or they are refused. -/
theorem ofBytes_of_length {bytes : Bytes} (h : bytes.length = 9) :
    (∃ e : Expiration, e.toBytes = bytes ∧ ofBytes bytes = .ok (.value e)) ∨
    ∃ ordinal, ofBytes bytes = .error (.corruptOrdinal (Ordinal.name TimeUnit) ordinal 7) := by
  have hne : bytes ≠ [] := List.ne_nil_of_length_eq_add_one h
  have hfirst : bytes.dropLast.length = 8 := by rw [List.length_dropLast, h]
  have hcases := ofBytes_cases hfirst (bytes.getLast hne)
  rw [List.dropLast_concat_getLast] at hcases
  obtain ⟨unit, _, hunit, hvalue⟩ | ⟨_, herror⟩ := hcases
  · refine .inl ⟨_, ?_, hvalue⟩
    rw [toBytes, longBytes_ofLongBytes hfirst, hunit, List.dropLast_concat_getLast]
  · exact .inr ⟨_, herror⟩

/-- Nothing else comes out of nine bytes. -/
theorem ofBytes_ne {bytes : Bytes} (h : bytes.length = 9)
    {result : Except CodecError (Decoded Expiration)} (hvalue : ∀ e, .ok (.value e) ≠ result)
    (hordinal : ∀ ordinal,
      .error (.corruptOrdinal (Ordinal.name TimeUnit) ordinal 7) ≠ result) :
    ofBytes bytes ≠ result := by
  obtain ⟨e, _, hread⟩ | ⟨ordinal, hread⟩ := ofBytes_of_length h
  · rw [hread]
    exact hvalue e
  · rw [hread]
    exact hordinal ordinal

end Expiration

namespace Codec

theorem expiration_hasWidth : expiration.HasWidth 9 :=
  ofWidth_hasWidth Expiration.length_toBytes expiration_carries fun _ h =>
    Expiration.ofBytes_ne h nofun nofun

theorem expiration_isExact : expiration.IsExact := by
  apply ofWidth_isExact
  · intro bytes value h hvalue
    obtain ⟨e, hwrite, hread⟩ | ⟨ordinal, hread⟩ := Expiration.ofBytes_of_length h
    · cases hread.symm.trans hvalue
      exact hwrite
    · cases hread.symm.trans hvalue
  · exact fun _ h => Expiration.ofBytes_ne h nofun nofun

/-- That the ordinal of the unit does not apply to its byte cannot happen. -/
theorem expiration_decode_ne_notApplicable (bytes : Bytes) (codec field : String) :
    expiration.decode (some bytes) ≠ .error (.notApplicable codec field) := by
  obtain ⟨h, hdecode⟩ | ⟨_, hdecode⟩ := decode_ofWidth_cases bytes
  · rw [expiration, hdecode]
    exact Expiration.ofBytes_ne h nofun nofun
  · rw [expiration, hdecode]
    nofun

/-- **Codecs of fixed width are exact.** Each has the width that it declares. What one reads as a
value is the encoding of the value, except that truth values have more readings than encodings; and
nothing is read as a missing value but one byte as a missing truth value, and this byte is never
written. An expiration has a unit of time or is refused for the ordinal in its last byte, and for no
other reason. -/
theorem fixedWidth_codecs_exact :
    (bool.HasWidth 1 ∧ short.HasWidth 2 ∧ int.HasWidth 4 ∧ long.HasWidth 8 ∧ double.HasWidth 8 ∧
      point.HasWidth 16 ∧ limit.HasWidth 16 ∧ expiration.HasWidth 9) ∧
    (short.IsExact ∧ int.IsExact ∧ long.IsExact ∧ double.IsExact ∧
      point.IsExact ∧ limit.IsExact ∧ expiration.IsExact) ∧
    (∀ bytes, bool.decode (some bytes) = .ok .absent ↔ bytes = [0xFF]) ∧
    (∀ value?, bool.encode value? ≠ .ok (some [0xFF])) ∧
    (∀ (first : Bytes) (last : UInt8), first.length = 8 →
      (∃ unit : TimeUnit, (unit.index : Int) = last.toInt8.toInt ∧
        expiration.decode (some (first ++ [last])) = .ok (.value ⟨ofLongBytes first, unit⟩)) ∨
      ((∀ unit : TimeUnit, (unit.index : Int) ≠ last.toInt8.toInt) ∧
        expiration.decode (some (first ++ [last])) =
          .error (.corruptOrdinal (Ordinal.name TimeUnit) last.toInt8.toInt 7))) ∧
    (∀ bytes codec field,
      expiration.decode (some bytes) ≠ .error (.notApplicable codec field)) := by
  refine ⟨⟨bool_hasWidth, short_hasWidth, int_hasWidth, long_hasWidth, double_hasWidth,
    point_hasWidth, limit_hasWidth, expiration_hasWidth⟩, ⟨short_isExact, int_isExact,
    long_isExact, double_isExact, point_isExact, limit_isExact, expiration_isExact⟩,
    bool_decode_eq_absent_iff, bool_encode_ne_missing, ?_, expiration_decode_ne_notApplicable⟩
  intro first last h
  have hlength : (first ++ [last]).length = 9 := by rw [List.length_append, h]; rfl
  have hdecode : expiration.decode (some (first ++ [last])) =
      Expiration.ofBytes (first ++ [last]) := if_pos hlength
  rw [hdecode]
  obtain ⟨unit, hindex, _, hread⟩ | hrefused := Expiration.ofBytes_cases h last
  · exact .inl ⟨unit, hindex, hread⟩
  · exact .inr hrefused

end Codec

end CommandWire
