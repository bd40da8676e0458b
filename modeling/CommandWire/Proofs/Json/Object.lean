import CommandWire.Proofs.Json.Reader

/-!
# Members of written objects

The loop over the members of an object ends at the brace (`runMembers_close`), and takes one written
member after the other before (`runMembers_of_takes`). A map is written with its keys in increasing
order, so every member goes behind the ones before it, and the map that is read has the same keys
(`dictionary_takes`).

A record is read by a loop that goes on with the rest of its fields, in a larger state. The two
loops mirror each other (`Mirrors`), so what is known of the one is known of the other.

Whatever an object is read for, its keys are texts (`run_reader_of_no_key`).
-/

namespace CommandWire.Json

namespace Reader

variable {α β σ : Type}

/-! ### Members of objects -/

/-- The loop over members, one step unfolded. -/
theorem runMembers_eq (member? : σ → String → Option (Reader (σ → σ))) (first : Bool)
    (state : σ) (input : Bytes) :
    runMembers member? first state input =
      match nextMember first input with
      | .error failure => .error failure
      | .ok (.done rest) => .ok (state, rest)
      | .ok (.key name rest) =>
        match member? state name with
        | none => .error .mismatched
        | some value =>
          match readColon rest with
          | .error failure => .error failure
          | .ok rest =>
            match value.run rest with
            | .error failure => .error failure
            | .ok (update, rest) => runMembers member? false (update state) rest := by
  fun_cases runMembers member? first state input <;> simp_all

theorem readKey_quote (rest : Bytes) :
    readKey (ascii '"' :: rest) = (readText rest).map fun member => .key member.1 member.2 := rfl

theorem nextMember_close (first : Bool) (rest : Bytes) :
    nextMember first (ascii '}' :: rest) = .ok (.done rest) := by
  rw [nextMember, skipBlanks_cons (by decide)]
  rfl

theorem nextMember_member (first : Bool) (key : String) (text rest : Bytes) :
    nextMember first
        ((if first then writeMember key text else ascii ',' :: writeMember key text) ++ rest) =
      .ok (.key key (ascii ':' :: (text ++ rest))) := by
  have hkey : readKey (writeMember key text ++ rest) =
      .ok (.key key (ascii ':' :: (text ++ rest))) := by
    rw [writeMember, List.append_assoc, List.cons_append, writeText, List.cons_append,
      readKey_quote, List.append_assoc, List.singleton_append, readText_writeText]
    rfl
  obtain ⟨more, hquote⟩ : ∃ more, writeMember key text ++ rest = ascii '"' :: more := ⟨_, rfl⟩
  rw [hquote] at hkey
  cases first with
  | true =>
    rw [if_pos rfl, hquote, nextMember, skipBlanks_cons (by decide)]
    exact hkey
  | false =>
    rw [if_neg Bool.false_ne_true, List.cons_append, hquote, nextMember,
      skipBlanks_cons (by decide)]
    dsimp only
    rw [if_neg (by decide), if_neg Bool.false_ne_true, if_pos rfl, skipBlanks_cons (by decide)]
    exact hkey

theorem runMembers_close (member? : σ → String → Option (Reader (σ → σ))) (first : Bool)
    (state : σ) (rest : Bytes) :
    runMembers member? first state (ascii '}' :: rest) = .ok (state, rest) := by
  rw [runMembers_eq, nextMember_close]

section Member

variable {member? : σ → String → Option (Reader (σ → σ))} {state : σ} {key : String}

/-- A member that nobody wants ends the object. -/
theorem runMembers_of_refused (h : member? state key = none) (first : Bool) (text rest : Bytes) :
    runMembers member? first state
        ((if first then writeMember key text else ascii ',' :: writeMember key text) ++ rest) =
      .error .mismatched := by
  rw [runMembers_eq, nextMember_member]
  dsimp only
  rw [h]

/-- A member is taken, and the others after what it does to the state. -/
theorem runMembers_of_takes {r : Reader (σ → σ)} (h : member? state key = some r) {text : Bytes}
    {updates : (σ → σ) → Prop} (htakes : r.Takes text updates) (first : Bool) {rest : Bytes}
    (hrest : EndsNumber rest) (result : σ × Bytes) :
    runMembers member? first state
        ((if first then writeMember key text else ascii ',' :: writeMember key text) ++ rest) =
      .ok result ↔
      ∃ update, updates update ∧ runMembers member? false (update state) rest = .ok result := by
  have hcolon : readColon (ascii ':' :: (text ++ rest)) = .ok (text ++ rest) := by
    rw [readColon, skipBlanks_cons (by decide)]
    rfl
  have htakes := htakes rest hrest
  rw [runMembers_eq, nextMember_member]
  dsimp only
  rw [h]
  dsimp only
  rw [hcolon]
  dsimp only
  constructor
  · intro hrun
    split at hrun
    next => cases hrun
    next hvalue =>
      obtain ⟨rfl, hupdate⟩ := (htakes _ _).1 hvalue
      exact ⟨_, hupdate, hrun⟩
  · rintro ⟨update, hupdate, hrun⟩
    rw [(htakes update _).2 ⟨rfl, hupdate⟩]
    exact hrun

end Member

/-! ### Dictionaries -/

section Dictionary

variable {ν : Type} {write : ν → Bytes}

/-- The entries are written in the order of their keys, so each one is put behind all others that
have been read. -/
theorem runMembers_insert {item : Reader α} {values : ν → α → Prop}
    (entries : List (String × ν)) (hitem : ∀ e ∈ entries, item.Takes (write e.2) (values e.2))
    (hincreasing : entries.Pairwise (·.1 < ·.1)) (first : Bool) (m : StringMap α)
    (hbelow : ∀ e ∈ m.entries, ∀ e' ∈ entries, e.1 < e'.1) (rest : Bytes) (result : StringMap α)
    (rest' : Bytes) :
    runMembers (fun _ key => some (item.map fun value m => m.insert key value)) first m
        (listed first (entries.map fun (key, x) => writeMember key (write x)) ++
          ascii '}' :: rest) = .ok (result, rest') ↔
      rest' = rest ∧ ∃ read, List.Forall₂ (fun e e' => e'.1 = e.1 ∧ values e.2 e'.2) entries read ∧
        result.entries = m.entries ++ read := by
  induction entries generalizing first m with
  | nil =>
    rw [List.map_nil, listed, List.nil_append, runMembers_close]
    constructor
    · intro h
      cases h
      exact ⟨rfl, [], .nil, (List.append_nil _).symm⟩
    · rintro ⟨rfl, _, ⟨⟩, hresult⟩
      rw [SortedMap.ext (hresult.trans (List.append_nil _))]
  | cons e entries ih =>
    obtain ⟨key, x⟩ := e
    rw [List.pairwise_cons] at hincreasing
    have hinsert (a : α) : (m.insert key a).entries = m.entries ++ [(key, a)] :=
      SortedMap.entries_insert_of_forall_lt fun e he => hbelow e he _ List.mem_cons_self
    have hbelow' (a : α) : ∀ e ∈ (m.insert key a).entries, ∀ e' ∈ entries, e.1 < e'.1 := by
      intro e he e' he'
      rw [hinsert, List.mem_append, List.mem_singleton] at he
      obtain he | rfl := he
      · exact hbelow e he e' (List.mem_cons_of_mem _ he')
      · exact hincreasing.1 e' he'
    have ih (a : α) := ih (fun e he => hitem e (List.mem_cons_of_mem _ he)) hincreasing.2 false
      (m.insert key a) (hbelow' a)
    have htakes := (hitem (key, x) List.mem_cons_self).map fun value (m : StringMap α) =>
      m.insert key value
    rw [List.map_cons, listed, List.append_assoc, runMembers_of_takes rfl htakes first
      (endsNumber_listed _ (ascii '}') (by decide) rest)]
    constructor
    · rintro ⟨_, ⟨a, ha, rfl⟩, hmore⟩
      obtain ⟨rfl, read, hread, hresult⟩ := (ih a).1 hmore
      rw [hinsert, List.append_assoc] at hresult
      exact ⟨rfl, (key, a) :: read, .cons ⟨rfl, ha⟩ hread, hresult⟩
    · rintro ⟨rfl, _, hread, hresult⟩
      cases hread with
      | @cons _ e' _ read he hread =>
      obtain ⟨_, a⟩ := e'
      obtain ⟨rfl, ha⟩ := he
      refine ⟨_, ⟨a, ha, rfl⟩, (ih a).2 ⟨rfl, read, hread, ?_⟩⟩
      rw [hinsert, List.append_assoc]
      exact hresult

theorem dictionary_takes {item : Nat → Reader α} {values : Nat → ν → α → Prop}
    {entries : List (String × ν)} (hincreasing : entries.Pairwise (·.1 < ·.1))
    (hitem : ∀ depth, ∀ e ∈ entries, (item depth).Takes (write e.2) (values depth e.2))
    (depth : Nat) :
    (dictionary item depth).Takes
      (bracketed '{' '}' (entries.map fun (key, x) => writeMember key (write x)))
      fun m => ∃ d, depth = d + 1 ∧
        List.Forall₂ (fun e e' => e'.1 = e.1 ∧ values d e.2 e'.2) entries m.entries := by
  rw [bracketed_eq]
  refine Takes.byFirst (by decide) ?_
  rw [if_pos rfl]
  refine enter_takes (fun d rest _ m rest' => ?_) depth
  rw [List.append_assoc]
  refine (runMembers_insert entries (hitem d) hincreasing true SortedMap.empty ?_ rest m
    rest').trans ?_
  · intro e he
    cases he
  · simp [SortedMap.empty]

end Dictionary

/-! ### Loops that mirror each other -/

section Mirror

variable {τ : Type}

/-- The readers read alike, and what the one does to the image of a state is the image of what the
other one does to the state. -/
def Mirrors (image : τ → σ) (r : Reader (σ → σ)) (r' : Reader (τ → τ)) : Prop :=
  ∀ input,
    match r'.run input with
    | .error failure => r.run input = .error failure
    | .ok (update', rest) =>
      ∃ update, r.run input = .ok (update, rest) ∧ ∀ t, update (image t) = image (update' t)

/-- Where two ways to read members treat the same keys alike, so do the loops, on any text. -/
theorem runMembers_of_mirrors {member? : σ → String → Option (Reader (σ → σ))}
    {member'? : τ → String → Option (Reader (τ → τ))} (image : τ → σ)
    (hnone : ∀ t key, member'? t key = none → member? (image t) key = none)
    (hsome : ∀ t key r', member'? t key = some r' →
      ∃ r, member? (image t) key = some r ∧ Mirrors image r r')
    (first : Bool) (t : τ) (input : Bytes) :
    runMembers member? first (image t) input =
      (runMembers member'? first t input).map fun (t, rest) => (image t, rest) := by
  fun_induction runMembers member'? first t input with
  | case1 first t input failure hnext =>
    rw [runMembers_eq, hnext]
    rfl
  | case2 first t input rest hnext =>
    rw [runMembers_eq, hnext]
    rfl
  | case3 first t input key rest hnext hmember =>
    rw [runMembers_eq, hnext]
    dsimp only
    rw [hnone t key hmember]
    rfl
  | case4 first t input key rest hnext r' hmember failure hcolon =>
    obtain ⟨r, hr, -⟩ := hsome t key r' hmember
    rw [runMembers_eq, hnext]
    dsimp only
    rw [hr]
    dsimp only
    rw [hcolon]
    rfl
  | case5 first t input key rest hnext r' hmember text hcolon failure hrun =>
    obtain ⟨r, hr, hsame⟩ := hsome t key r' hmember
    have hsame := hsame text
    rw [hrun] at hsame
    rw [runMembers_eq, hnext]
    dsimp only
    rw [hr]
    dsimp only
    rw [hcolon]
    dsimp only
    rw [hsame]
    rfl
  | case6 first t input key rest hnext r' hmember text hcolon update' more hrun ih =>
    obtain ⟨r, hr, hsame⟩ := hsome t key r' hmember
    have hsame := hsame text
    rw [hrun] at hsame
    obtain ⟨update, hupdate, hstate⟩ := hsame
    rw [runMembers_eq, hnext]
    dsimp only
    rw [hr]
    dsimp only
    rw [hcolon]
    dsimp only
    rw [hupdate]
    dsimp only
    rw [hstate, ih]

section Once

variable {member? : String → Option (Member σ)} {unknown : Option (Reader (σ → σ))} {state : σ}
  {key : String}

theorem once_of_none (h : member? key = none) : once member? unknown state key = unknown := by
  rw [once, h]

theorem once_of_filled {m : Member σ} (h : member? key = some m) (hfilled : m.filled state = true) :
    once member? unknown state key = none := by
  rw [once, h]
  exact if_pos hfilled

theorem once_of_not_filled {m : Member σ} (h : member? key = some m)
    (hfilled : m.filled state = false) : once member? unknown state key = some m.value := by
  rw [once, h]
  exact if_neg (Bool.eq_false_iff.1 hfilled)

end Once

theorem ignored_mirrors (image : τ → σ) : Mirrors image ignored ignored := by
  intro input
  rw [ignored, ignored, run_map, run_map]
  cases skipped.run input with
  | error failure => rfl
  | ok result => exact ⟨id, rfl, fun t => rfl⟩

theorem Member.later_mirrors {α : Type} (m : Member σ) (slot : Option α) :
    Mirrors (fun slots => (slot, slots)) m.later.value m.value := by
  intro input
  rw [Member.later, run_map]
  cases m.value.run input with
  | error failure => rfl
  | ok result => exact ⟨_, rfl, fun t => rfl⟩

end Mirror

/-! ### What is no key -/

theorem run_refine_of_error {α β : Type} {r : Reader α} {input : Bytes} {failure : Failure}
    (h : r.run input = .error failure) (f : α → Option β) :
    (r.refine f).run input = .error failure := by
  rw [refine]
  dsimp only
  rw [h]

section NoKey

variable {α σ : Type} {b : UInt8} (hblank : isBlank b = false) (hquote : b ≠ ascii '"')
include hblank hquote

theorem run_variant_of_no_key (value? : String → Option α) (depth : Nat) (rest : Bytes) :
    (variant value? (depth + 1)).run (ascii '{' :: b :: rest) = .error .malformed := by
  have hkey : (byFirst fun _ => key).run (b :: rest) = .error .malformed :=
    (run_byFirst_cons _ hblank rest).trans (if_neg hquote)
  rw [variant, run_byFirst_cons _ (by decide), if_neg (by decide), if_pos rfl]
  simp only [enter, afterFirst, variantKey, followedBy, refine, hkey]

variable (hclose : b ≠ ascii '}')
include hclose

theorem run_members_of_no_key (member? : σ → String → Option (Reader (σ → σ))) (state : σ)
    (rest : Bytes) : (members member? state).run (b :: rest) = .error .malformed := by
  have hkey : key.run (b :: rest) = .error .malformed := if_neg hquote
  have hnext : nextMember true (b :: rest) = .error .malformed := by
    rw [nextMember, skipBlanks_cons hblank]
    dsimp only
    rw [if_neg hclose, if_pos rfl, readKey, hkey]
    rfl
  show runMembers member? true state (b :: rest) = _
  rw [runMembers_eq, hnext]

end NoKey

end Reader

/-- **Only texts are keys.** Whichever shape an object is read for, it is no JSON if its first
member does not begin with a quote. -/
theorem run_reader_of_no_key {b : UInt8} (hblank : isBlank b = false) (hquote : b ≠ ascii '"')
    (hclose : b ≠ ascii '}') (depth : Nat) (rest : Bytes) :
    (∀ names, (reader (.variants names) (depth + 1)).run (ascii '{' :: b :: rest) =
      .error .malformed) ∧
    (∀ fields, (reader (.record fields) (depth + 1)).run (ascii '{' :: b :: rest) =
      .error .malformed) ∧
    ∀ item, (reader (.map item) (depth + 1)).run (ascii '{' :: b :: rest) = .error .malformed := by
  refine ⟨fun names => ?_, fun fields => ?_, fun item => ?_⟩
  · exact Reader.run_variant_of_no_key hblank hquote names.finIdxOf? depth rest
  · have hmembers := Reader.run_members_of_no_key hblank hquote hclose
      (Reader.once (memberReader? fields depth) (some Reader.ignored)) fields.noSlots rest
    exact Reader.run_refine_of_error hmembers (fields.complete? none)
  · exact Reader.run_members_of_no_key hblank hquote hclose _ _ rest

/-- In the place of a key a number is no JSON; where a truth value is wanted, it is JSON of the
wrong kind. -/
example : read (.variants ["Asc", "Desc"]) (Bytes.ofText "{1:null}") = .error .malformed ∧
    read .bool (Bytes.ofText "1") = .error .mismatched :=
  ⟨rfl, rfl⟩

end CommandWire.Json
