import Mathlib.Data.List.TakeWhile
import CommandWire.Proofs.Json.ReadBack

/-!
# Texts that have lost their end

What is read of a text that is cut off depends on where a value ends. A number in front of nothing
is a number, so the digits that are left of a number are read as another one; but then they are all
that is left (`Reader.RunsOut`). A bracket or a quote that has been opened must be closed, so of a
text in brackets or in quotes no beginning is read, wherever it is cut (`Reader.NoticesCuts`). Inside
brackets the one is as good as the other, because behind the last byte there is neither a comma nor
a bracket (`Reader.array_noticesCuts`, `Reader.dictionary_noticesCuts`).

Behind an object, on the other hand, anything may follow, and what is not blank is noticed only by
who wants a text with nothing behind (`read_map_append`).
-/

namespace CommandWire.Json

/-- A cut lies inside the first part, or behind it and then in the second one. -/
theorem cut_cases {first second cut lost : Bytes} (h : first ++ second = cut ++ lost) :
    (∃ missing, missing ≠ [] ∧ first = cut ++ missing) ∨
      ∃ more, cut = first ++ more ∧ second = more ++ lost := by
  rcases List.append_eq_append_iff.1 h with ⟨more, rfl, rfl⟩ | ⟨missing, rfl, rfl⟩
  · exact .inr ⟨more, rfl, rfl⟩
  · cases missing with
    | nil => exact .inr ⟨[], by simp, rfl⟩
    | cons b missing => exact .inl ⟨b :: missing, List.cons_ne_nil b missing, rfl⟩

/-- A cut of a text that is not empty lies in front of its first byte or behind it. -/
theorem cut_cons_cases {b : UInt8} {text cut lost : Bytes} (h : b :: text = cut ++ lost) :
    cut = [] ∨ ∃ more, cut = b :: more ∧ text = more ++ lost := by
  cases cut with
  | nil => exact .inl rfl
  | cons c more =>
    cases h
    exact .inr ⟨more, rfl, rfl⟩

/-- Of a single byte nothing is left. -/
theorem cut_singleton {b : UInt8} {cut lost : Bytes} (h : [b] = cut ++ lost) (hlost : lost ≠ []) :
    cut = [] := by
  rcases cut_cons_cases h with rfl | ⟨more, _, hmore⟩
  · rfl
  · exact absurd (List.append_eq_nil_iff.1 hmore.symm).2 hlost

theorem EndsNumber.of_append {text rest : Bytes} (h : EndsNumber (text ++ rest)) :
    EndsNumber text := by
  intro b hb
  apply h b
  rw [List.head?_append, hb]
  rfl

namespace Reader

variable {α β σ : Type}

/-! ### What readers do at the end of a text -/

/-- Of the text without its end the reader says that it is unfinished. -/
def NoticesCuts (r : Reader α) (text : Bytes) : Prop :=
  ∀ cut lost, text = cut ++ lost → lost ≠ [] → r.run cut = .error .unfinished

/-- Of the text without its end the reader says that it is unfinished, or it leaves nothing of it. -/
def RunsOut (r : Reader α) (text : Bytes) : Prop :=
  ∀ cut lost, text = cut ++ lost → lost ≠ [] →
    r.run cut = .error .unfinished ∨ ∃ value, r.run cut = .ok (value, [])

/-- The reader takes the text for some value, in front of anything that does not continue a
number. -/
def Accepts (r : Reader α) (text : Bytes) : Prop :=
  ∀ rest, EndsNumber rest → ∃ value, r.run (text ++ rest) = .ok (value, rest)

theorem NoticesCuts.runsOut {r : Reader α} {text : Bytes} (h : r.NoticesCuts text) :
    r.RunsOut text :=
  fun cut lost htext hlost => .inl (h cut lost htext hlost)

theorem Takes.accepts {r : Reader α} {text : Bytes} {values : α → Prop} (h : r.Takes text values)
    {value : α} (hvalue : values value) : r.Accepts text :=
  fun rest hrest => ⟨value, (h rest hrest value rest).2 ⟨rfl, hvalue⟩⟩

theorem RunsOut.map {r : Reader α} {text : Bytes} (h : r.RunsOut text) (f : α → β) :
    (r.map f).RunsOut text := by
  intro cut lost htext hlost
  rw [run_map]
  rcases h cut lost htext hlost with hrun | ⟨value, hrun⟩
  · rw [hrun]
    exact .inl rfl
  · rw [hrun]
    exact .inr ⟨f value, rfl⟩

theorem Accepts.map {r : Reader α} {text : Bytes} (h : r.Accepts text) (f : α → β) :
    (r.map f).Accepts text := by
  intro rest hrest
  obtain ⟨value, hrun⟩ := h rest hrest
  refine ⟨f value, ?_⟩
  rw [run_map, hrun]
  rfl

theorem run_byFirst_nil (choose : UInt8 → Reader α) :
    (byFirst choose).run [] = .error .unfinished := rfl

/-- What is inside a bracket is cut, or the bracket itself is gone. -/
theorem noticesCuts_byFirst {choose : UInt8 → Reader α} {b : UInt8} (hb : isBlank b = false)
    {inner : Nat → Reader α} {depth : Nat} (hchoose : choose b = enter inner (depth + 1))
    {text : Bytes} (h : (inner depth).NoticesCuts text) :
    (byFirst choose).NoticesCuts (b :: text) := by
  intro cut lost htext hlost
  rcases cut_cons_cases htext with rfl | ⟨more, rfl, hmore⟩
  · exact run_byFirst_nil choose
  · rw [run_byFirst_cons choose hb, hchoose]
    exact h more lost hmore hlost

end Reader

/-! ### Numbers -/

/-- The digits in front of others are those of a smaller number, and it is zero only if the number
is. -/
theorem exists_writeNat_of_append (n : Nat) {cut lost : Bytes} (h : writeNat n = cut ++ lost)
    (hcut : cut ≠ []) : ∃ m, m ≤ n ∧ (0 < n → 0 < m) ∧ cut = writeNat m := by
  induction n using writeNat.induct generalizing lost with
  | case1 n hn =>
    rw [writeNat, if_pos hn] at h
    rcases cut_cons_cases h with rfl | ⟨more, rfl, hmore⟩
    · exact absurd rfl hcut
    · refine ⟨n, Nat.le_refl n, id, ?_⟩
      rw [writeNat, if_pos hn, (List.append_eq_nil_iff.1 hmore.symm).1]
  | case2 n hn ih =>
    rw [writeNat, if_neg hn] at h
    have hten : 0 < n / 10 := by omega
    rcases cut_cases h with ⟨missing, _, hfront⟩ | ⟨more, rfl, hdigit⟩
    · obtain ⟨m, hm, hpos, rfl⟩ := ih hfront
      exact ⟨m, by omega, fun _ => hpos hten, rfl⟩
    · rcases cut_cons_cases hdigit with rfl | ⟨rest, rfl, hrest⟩
      · exact ⟨n / 10, by omega, fun _ => hten, List.append_nil _⟩
      · obtain ⟨rfl, rfl⟩ := List.append_eq_nil_iff.1 hrest.symm
        exact ⟨n, Nat.le_refl n, id, by rw [writeNat.eq_1 n, if_neg hn]⟩

/-- What is left of an integer is nothing, its sign, or another integer of the kind. -/
theorem exists_writeInt_of_append {kind : IntegerKind} (value : kind.Value) {cut lost : Bytes}
    (h : writeInt value.val = cut ++ lost) :
    cut = [] ∨ cut = [ascii '-'] ∨ ∃ value' : kind.Value, cut = writeInt value'.val := by
  obtain ⟨n, hlow, hhigh⟩ := value
  have hzero : kind.low ≤ 0 ∧ 0 < kind.bound := by cases kind <;> decide
  dsimp only at h
  rw [writeInt] at h
  split at h
  next hneg =>
    rcases cut_cons_cases h with rfl | ⟨more, rfl, hmore⟩
    · exact .inl rfl
    · by_cases hnil : more = []
      · exact .inr (.inl (by rw [hnil]))
      · obtain ⟨m, hm, hpos, rfl⟩ := exists_writeNat_of_append _ hmore hnil
        have hm' : 0 < m := hpos (by omega)
        refine .inr (.inr ⟨⟨-m, by omega, by omega⟩, ?_⟩)
        show _ = writeInt (-m)
        rw [writeInt, if_pos (by omega), Int.natAbs_neg, Int.natAbs_natCast]
  next hneg =>
    by_cases hnil : cut = []
    · exact .inl hnil
    · obtain ⟨m, hm, _, rfl⟩ := exists_writeNat_of_append _ h hnil
      refine .inr (.inr ⟨⟨m, by omega, by omega⟩, ?_⟩)
      show _ = writeInt m
      rw [writeInt, if_neg (by omega), Int.natAbs_natCast]

/-! ### Quoted text -/

theorem readCodeUnit_of_length_lt {input : Bytes} (h : input.length < 4) :
    readCodeUnit input = .error .unfinished := by
  rcases input with _ | ⟨_, _ | ⟨_, _ | ⟨_, _ | ⟨_, _⟩⟩⟩⟩
  case cons.cons.cons.cons =>
    simp only [List.length_cons] at h
    omega
  all_goals rfl

theorem unescape_of_readEscape_error {input : Bytes} {failure : Failure}
    (h : readEscape input = .error failure) (taken : Bytes) :
    unescape taken (ascii '\\' :: input) = .error failure := by
  rw [unescape, if_neg (by decide), if_pos rfl]
  split
  next he =>
    rw [h] at he
    cases he
    rfl
  next he =>
    rw [h] at he
    cases he

/-- An escape is cut behind its backslash, behind the letter, or in its digits; all other bytes are
plain. -/
theorem unescape_of_cut_char {c : Char} {cut missing : Bytes} (h : writeChar c = cut ++ missing)
    (hmissing : missing ≠ []) (taken : Bytes) : unescape taken cut = .error .unfinished := by
  rcases writeChar_cases c with ⟨letter, _, hchar⟩ | ⟨_, hchar⟩ | ⟨hchar, hplain⟩
  · rcases cut_cons_cases (hchar.symm.trans h) with rfl | ⟨more, rfl, hletter⟩
    · rw [unescape]
    · refine unescape_of_readEscape_error ?_ taken
      rw [cut_singleton hletter hmissing]
      rfl
  · rcases cut_cons_cases (hchar.symm.trans h) with rfl | ⟨more, rfl, hcode⟩
    · rw [unescape]
    · refine unescape_of_readEscape_error ?_ taken
      rcases cut_cons_cases hcode with rfl | ⟨digits, rfl, hdigits⟩
      · rfl
      · have hlength : 4 = digits.length + missing.length := by
          rw [← List.length_append, ← hdigits]
          rfl
        have hpos := List.length_pos_iff.2 hmissing
        have hunit : readCodeUnit digits = .error .unfinished :=
          readCodeUnit_of_length_lt (by omega)
        rw [readEscape, show escaped? (ascii 'u') = none from rfl]
        dsimp only
        rw [if_pos rfl, readUnicodeEscape, hunit]
  · have hplain : ∀ b ∈ cut, IsPlainByte b := fun b hb =>
      hplain b (hchar.symm.trans h ▸ List.mem_append_left missing hb)
    rw [← List.append_nil cut, unescape_append_of_plain hplain, unescape]

/-- By induction on the characters: the cut lies in one of them, or the closing quote is gone. -/
theorem unescape_of_cut (cs : List Char) {cut lost : Bytes}
    (h : cs.flatMap writeChar ++ [ascii '"'] = cut ++ lost) (hlost : lost ≠ []) (taken : Bytes) :
    unescape taken cut = .error .unfinished := by
  induction cs generalizing cut taken with
  | nil => rw [cut_singleton h hlost, unescape]
  | cons c cs ih =>
    rw [List.flatMap_cons, List.append_assoc] at h
    rcases cut_cases h with ⟨missing, hmissing, hchar⟩ | ⟨more, rfl, hmore⟩
    · exact unescape_of_cut_char hchar hmissing taken
    · rw [unescape_writeChar, ih hmore]

theorem readKey_of_cut {text : String} {cut lost : Bytes} (h : writeText text = cut ++ lost)
    (hlost : lost ≠ []) : readKey cut = .error .unfinished := by
  rw [writeText] at h
  rcases cut_cons_cases h with rfl | ⟨more, rfl, hmore⟩
  · rfl
  · rw [Reader.readKey_quote, readText, unescape_of_cut text.toList hmore hlost]
    rfl

namespace Reader

theorem integer_runsOut {kind : IntegerKind} (value : kind.Value) :
    (numeric (Number.toKind? kind)).RunsOut (writeInt value.val) := by
  intro cut lost htext _
  rcases exists_writeInt_of_append value htext with rfl | rfl | ⟨value', rfl⟩
  · exact .inl rfl
  · exact .inl rfl
  · have htakes := integer_takes kind value' [] endsNumber_nil value' []
    rw [List.append_nil] at htakes
    exact .inr ⟨value', htakes.2 ⟨rfl, rfl⟩⟩

variable {α β σ : Type}

/-! ### Items of arrays -/

theorem startsValue_of_append {part cut missing : Bytes} (h : StartsValue part)
    (hpart : part = cut ++ missing) (hcut : cut ≠ []) : StartsValue cut := by
  obtain ⟨b, more, rfl, hb⟩ := h
  rcases cut_cons_cases hpart with rfl | ⟨more', rfl, _⟩
  · exact absurd rfl hcut
  · exact ⟨b, more', rfl, hb⟩

/-- Where an item is cut, there is nothing of it, or it begins as it did. -/
theorem nextItem_of_cut (first : Bool) {part cut missing : Bytes} (hpart : StartsValue part)
    (h : (if first then part else ascii ',' :: part) = cut ++ missing) :
    nextItem first cut = .error .unfinished ∨
      ∃ front, part = front ++ missing ∧ nextItem first cut = .ok (.item front) := by
  have begun : ∀ front, part = front ++ missing → front ≠ [] →
      nextItem first (if first then front else ascii ',' :: front) = .ok (.item front) := by
    intro front hfront hne
    have hnext := nextItem_item first (startsValue_of_append hpart hfront hne) []
    rwa [List.append_nil, List.append_nil] at hnext
  cases first with
  | true =>
    by_cases hnil : cut = []
    · exact .inl (by rw [hnil]; rfl)
    · exact .inr ⟨cut, h, begun cut h hnil⟩
  | false =>
    rcases cut_cons_cases h with rfl | ⟨front, rfl, hfront⟩
    · exact .inl rfl
    · by_cases hnil : front = []
      · exact .inl (by rw [hnil]; rfl)
      · exact .inr ⟨front, hfront, begun front hfront hnil⟩

theorem runItems_nil (item : Reader α) (first : Bool) :
    runItems item first [] = .error .unfinished := by
  rw [runItems_eq]
  rfl

/-- By induction on the items: the cut lies in one of them, and behind what is left of it there is
nothing. -/
theorem runItems_of_cut {item : Reader α} {parts : List Bytes}
    (hstarts : ∀ part ∈ parts, StartsValue part) (haccepts : ∀ part ∈ parts, item.Accepts part)
    (hruns : ∀ part ∈ parts, item.RunsOut part) (first : Bool) {cut lost : Bytes}
    (h : listed first parts ++ [ascii ']'] = cut ++ lost) (hlost : lost ≠ []) :
    runItems item first cut = .error .unfinished := by
  induction parts generalizing first cut with
  | nil =>
    rw [cut_singleton h hlost, runItems_nil]
  | cons part parts ih =>
    rw [List.forall_mem_cons] at hstarts haccepts hruns
    rw [listed, List.append_assoc] at h
    rw [runItems_eq]
    rcases cut_cases h with ⟨missing, hmissing, hpart⟩ | ⟨more, rfl, hmore⟩
    · rcases nextItem_of_cut first hstarts.1 hpart with hnext | ⟨front, hfront, hnext⟩
      · rw [hnext]
      · rw [hnext]
        dsimp only
        rcases hruns.1 front missing hfront hmissing with hrun | ⟨value, hrun⟩
        · rw [hrun]
        · rw [hrun]
          dsimp only
          rw [runItems_nil]
    · have hends : EndsNumber more := by
        have hends := endsNumber_listed parts (ascii ']') (by decide) []
        rw [hmore] at hends
        exact hends.of_append
      obtain ⟨value, hrun⟩ := haccepts.1 more hends
      rw [nextItem_item first hstarts.1]
      dsimp only
      rw [hrun]
      dsimp only
      rw [ih hstarts.2 haccepts.2 hruns.2 false hmore]

/-- An array whose items are taken notices every cut. -/
theorem array_noticesCuts {item : Nat → Reader α} {parts : List Bytes} {depth : Nat}
    (hstarts : ∀ part ∈ parts, StartsValue part)
    (haccepts : ∀ part ∈ parts, (item depth).Accepts part)
    (hruns : ∀ part ∈ parts, (item depth).RunsOut part) :
    (array (fun depth => items (item depth)) (depth + 1)).NoticesCuts (bracketed '[' ']' parts) := by
  rw [bracketed_eq]
  refine noticesCuts_byFirst (by decide) (if_pos rfl) ?_
  intro cut lost h hlost
  exact runItems_of_cut hstarts haccepts hruns true h hlost

/-! ### Members of objects -/

/-- Where a member is cut, its key is not finished, or it has been read and the rest of the member
is what follows. -/
theorem readKey_of_cut_member {key : String} {text cut missing : Bytes}
    (h : writeMember key text = cut ++ missing) :
    readKey cut = .error .unfinished ∨
      ∃ front, ascii ':' :: text = front ++ missing ∧ readKey cut = .ok (.key key front) := by
  rw [writeMember] at h
  rcases cut_cases h with ⟨lost, hlost, hkey⟩ | ⟨front, rfl, hfront⟩
  · exact .inl (readKey_of_cut hkey hlost)
  · refine .inr ⟨front, hfront, ?_⟩
    rw [writeText, List.cons_append, readKey_quote, List.append_assoc, List.singleton_append,
      readText_writeText]
    rfl

theorem nextMember_of_cut (first : Bool) {key : String} {text cut missing : Bytes}
    (h : (if first then writeMember key text else ascii ',' :: writeMember key text) =
      cut ++ missing) :
    nextMember first cut = .error .unfinished ∨
      ∃ front, ascii ':' :: text = front ++ missing ∧ nextMember first cut = .ok (.key key front) := by
  -- A member begins with a quote, so there is no blank to be skipped.
  have hfirst : ∀ front, writeMember key text = front ++ missing →
      nextMember true front = readKey front ∧ skipBlanks front = front := by
    intro front hfront
    rw [writeMember, writeText, List.cons_append] at hfront
    rcases cut_cons_cases hfront with rfl | ⟨more, rfl, _⟩
    · exact ⟨rfl, rfl⟩
    · have hskip := skipBlanks_cons (b := ascii '"') (by decide) more
      refine ⟨?_, hskip⟩
      rw [nextMember, hskip]
      rfl
  cases first with
  | true =>
    rw [(hfirst cut h).1]
    exact readKey_of_cut_member h
  | false =>
    rcases cut_cons_cases h with rfl | ⟨front, rfl, hfront⟩
    · exact .inl rfl
    · have hnext : nextMember false (ascii ',' :: front) = readKey front := by
        rw [nextMember, skipBlanks_cons (by decide)]
        dsimp only
        rw [if_neg (by decide), if_neg Bool.false_ne_true, if_pos rfl, (hfirst front hfront).2]
      rw [hnext]
      exact readKey_of_cut_member hfront

theorem runMembers_nil (member? : σ → String → Option (Reader (σ → σ))) (first : Bool)
    (state : σ) : runMembers member? first state [] = .error .unfinished := by
  rw [runMembers_eq]
  rfl

theorem readColon_cons (rest : Bytes) : readColon (ascii ':' :: rest) = .ok rest := by
  rw [readColon, skipBlanks_cons (by decide)]
  rfl

section Entries

variable {ν : Type} {write : ν → Bytes} {entries : List (String × ν)}

/-- By induction on the entries: the cut lies in a key, in front of its colon or in a value, and
behind what is left of a value there is nothing. -/
theorem runMembers_of_cut {member? : σ → String → Option (Reader (σ → σ))}
    (hmember : ∀ e ∈ entries, ∀ state, ∃ r,
      member? state e.1 = some r ∧ r.Accepts (write e.2) ∧ r.RunsOut (write e.2))
    (first : Bool) (state : σ) {cut lost : Bytes}
    (h : listed first (entries.map fun (key, x) => writeMember key (write x)) ++ [ascii '}'] =
      cut ++ lost) (hlost : lost ≠ []) :
    runMembers member? first state cut = .error .unfinished := by
  induction entries generalizing first state cut with
  | nil =>
    rw [cut_singleton h hlost, runMembers_nil]
  | cons e entries ih =>
    obtain ⟨key, x⟩ := e
    rw [List.forall_mem_cons] at hmember
    obtain ⟨r, hr, haccepts, hruns⟩ := hmember.1 state
    rw [List.map_cons, listed, List.append_assoc] at h
    rw [runMembers_eq]
    rcases cut_cases h with ⟨missing, hmissing, hpart⟩ | ⟨more, rfl, hmore⟩
    · rcases nextMember_of_cut first hpart with hnext | ⟨front, hfront, hnext⟩
      · rw [hnext]
      · rw [hnext]
        dsimp only
        rw [hr]
        dsimp only
        rcases cut_cons_cases hfront with rfl | ⟨value, rfl, hvalue⟩
        · rfl
        · rw [readColon_cons]
          dsimp only
          rcases hruns value missing hvalue hmissing with hrun | ⟨update, hrun⟩
          · rw [hrun]
          · rw [hrun]
            dsimp only
            rw [runMembers_nil]
    · have hends : EndsNumber more := by
        have hends := endsNumber_listed (entries.map fun (key, x) => writeMember key (write x))
          (ascii '}') (by decide) []
        rw [hmore] at hends
        exact hends.of_append
      obtain ⟨update, hrun⟩ := haccepts more hends
      rw [nextMember_member]
      dsimp only
      rw [hr]
      dsimp only
      rw [readColon_cons]
      dsimp only
      rw [hrun]
      dsimp only
      rw [ih hmember.2 false (update state) hmore]

/-- An object whose values are taken notices every cut. -/
theorem dictionary_noticesCuts {item : Nat → Reader α} {depth : Nat}
    (haccepts : ∀ e ∈ entries, (item depth).Accepts (write e.2))
    (hruns : ∀ e ∈ entries, (item depth).RunsOut (write e.2)) :
    (dictionary item (depth + 1)).NoticesCuts
      (bracketed '{' '}' (entries.map fun (key, x) => writeMember key (write x))) := by
  rw [bracketed_eq]
  refine noticesCuts_byFirst (by decide) (if_pos rfl) ?_
  intro cut lost h hlost
  refine runMembers_of_cut (fun e he state => ?_) true SortedMap.empty h hlost
  exact ⟨_, rfl, (haccepts e he).map _, (hruns e he).map _⟩

end Entries

end Reader

/-! ### Objects as whole texts -/

theorem read_of_noticesCuts {shape : Shape} {text cut lost : Bytes}
    (h : (reader shape depthLimit).NoticesCuts text) (htext : text = cut ++ lost)
    (hlost : lost ≠ []) : read shape cut = .error .unfinished := by
  rw [read, Reader.read, h cut lost htext hlost]

/-- Behind an object anything may follow. -/
theorem run_map_append {item : Shape} {depth : Nat} {v w : (Shape.map item).Data}
    (h : ReadsBack (.map item) depth v w) (rest : Bytes) :
    (reader (.map item) depth).run (write (.map item) v ++ rest) = .ok (w, rest) := by
  obtain ⟨d, rfl, hread⟩ := h
  have hrun := (Reader.runMembers_insert v.entries (fun e _ => reader_takes item d e.2)
    v.increasing true SortedMap.empty (fun e he => nomatch he) rest w rest).2
    ⟨rfl, w.entries, hread, rfl⟩
  rw [write, bracketed_eq, List.cons_append, List.append_assoc]
  exact (Reader.run_byFirst_cons _ (by decide) _).trans hrun

/-- But only blanks may follow where a text holds the object and nothing else. -/
theorem read_map_append {item : Shape} {v w : (Shape.map item).Data}
    (h : ReadsBack (.map item) depthLimit v w) (rest : Bytes) :
    read (.map item) (write (.map item) v ++ rest) =
      if rest.all isBlank then .ok w else .error .malformed := by
  rw [read, Reader.read, run_map_append h]
  dsimp only
  simp only [skipBlanks, List.dropWhile_eq_nil_iff, List.all_eq_true]

/-- Of a list of integers no beginning is read. -/
theorem integers_noticesCuts {kind : IntegerKind} (values : List kind.Value) (depth : Nat) :
    (reader (.list (.integer kind)) (depth + 1)).NoticesCuts
      (write (.list (.integer kind)) values) := by
  refine Reader.array_noticesCuts ?_ ?_ ?_ <;> rintro _ hpart <;>
    obtain ⟨value, -, rfl⟩ := List.mem_map.1 hpart
  · exact startsValue_write (.integer kind) value
  · exact (integer_takes kind value).accepts rfl
  · exact Reader.integer_runsOut value

/-- Of a map of such lists no beginning is read. -/
theorem map_integers_noticesCuts {kind : IntegerKind}
    (values : (Shape.map (.list (.integer kind))).Data) (depth : Nat) :
    (reader (.map (.list (.integer kind))) (depth + 2)).NoticesCuts
      (write (.map (.list (.integer kind))) values) := by
  refine Reader.dictionary_noticesCuts (fun e _ => ?_) fun e _ => ?_
  · exact (reader_takes (.list (.integer kind)) (depth + 1) e.2).accepts
      ⟨depth, rfl, List.forall₂_same.2 fun _ _ => rfl⟩
  · exact (integers_noticesCuts e.2 depth).runsOut

end CommandWire.Json
