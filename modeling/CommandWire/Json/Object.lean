import CommandWire.Json.Skip

/-!
# Objects

An object is read member by member. Which reader a member's value gets is decided as soon as its
key is known, from the key and from what has been read so far (`Reader.members`); a key for which
there is no reader is refused before its colon is looked at. So one loop reads maps, which take
every key, and records, which take a key once.
-/

namespace CommandWire.Json

/-- What stands at a place where a member or the end of an object may stand. -/
inductive NextMember where
  | key (name : String) (rest : Bytes)
  /-- The closing bracket has been taken. -/
  | done (rest : Bytes)

/-- A key at the very front. Objects have texts for keys and nothing else: what is no text is not
JSON in this place, although it may be in any other. -/
def Reader.key : Reader String where
  run input :=
    match input with
    | [] => .error .unfinished
    | b :: rest => if b = ascii '"' then readText rest else .error .malformed
  shrinks {input name rest} h := by
    split at h
    · cases h
    · split at h
      · exact Nat.lt_succ_of_lt (length_lt_of_readText h)
      · cases h

/-- A member that begins with its key. -/
def readKey (input : Bytes) : Except Failure NextMember :=
  (Reader.key.run input).map fun member => .key member.1 member.2

/-- Looks for the next member of an object: the first one follows the bracket, all others a
comma. -/
def nextMember (first : Bool) (input : Bytes) : Except Failure NextMember :=
  match skipBlanks input with
  | [] => .error .unfinished
  | b :: rest =>
    if b = ascii '}' then .ok (.done rest)
    else if first then readKey (b :: rest)
    else if b = ascii ',' then readKey (skipBlanks rest)
    else .error .malformed

theorem length_lt_of_readKey {input rest : Bytes} {name : String}
    (h : readKey input = .ok (.key name rest)) : rest.length < input.length := by
  unfold readKey at h
  cases run : Reader.key.run input with
  | error failure => rw [run] at h; cases h
  | ok member =>
    rw [run] at h
    cases h
    exact Reader.key.shrinks run

theorem readKey_ne_done {input rest : Bytes} : readKey input ≠ .ok (.done rest) := by
  unfold readKey
  intro h
  cases run : Reader.key.run input <;> rw [run] at h <;> cases h

theorem length_lt_of_nextMember {first : Bool} {input rest : Bytes} {name : String}
    (h : nextMember first input = .ok (.key name rest)) : rest.length < input.length := by
  unfold nextMember at h
  split at h
  · cases h
  next b rest' eq =>
    have lt := length_lt_of_skipBlanks eq
    split at h
    · cases h
    · split at h
      · have := length_lt_of_readKey h
        simp only [List.length_cons] at this
        omega
      · split at h
        · have := length_lt_of_readKey h
          have := length_skipBlanks_le rest'
          omega
        · cases h

theorem length_lt_of_nextMember_done {first : Bool} {input rest : Bytes}
    (h : nextMember first input = .ok (.done rest)) : rest.length < input.length := by
  unfold nextMember at h
  split at h
  · cases h
  next b rest' eq =>
    split at h
    · cases h
      exact length_lt_of_skipBlanks eq
    · split at h
      · exact absurd h readKey_ne_done
      · split at h
        · exact absurd h readKey_ne_done
        · cases h

namespace Reader

variable {σ : Type}

/-- Reads members up to and including the closing bracket. The value of a member is read as what
it does to the state. -/
def runMembers (member? : σ → String → Option (Reader (σ → σ))) (first : Bool) (state : σ)
    (input : Bytes) : Except Failure (σ × Bytes) :=
  match _next : nextMember first input with
  | .error failure => .error failure
  | .ok (.done rest) => .ok (state, rest)
  | .ok (.key name rest) =>
    match member? state name with
    | none => .error .mismatched
    | some value =>
      match _colon : readColon rest with
      | .error failure => .error failure
      | .ok rest =>
        match _run : value.run rest with
        | .error failure => .error failure
        | .ok (update, rest) => runMembers member? false (update state) rest
termination_by input.length
decreasing_by
  have := length_lt_of_nextMember _next
  have := length_lt_of_readColon _colon
  have := value.shrinks _run
  omega

theorem length_lt_of_runMembers {member? : σ → String → Option (Reader (σ → σ))} {first : Bool}
    {state state' : σ} {input rest : Bytes}
    (h : runMembers member? first state input = .ok (state', rest)) :
    rest.length < input.length := by
  fun_induction runMembers member? first state input with
  | case1 | case3 | case4 | case5 => cases h
  | case2 first state input rest' next =>
    cases h
    exact length_lt_of_nextMember_done next
  | case6 first state input name rest₁ next value _ rest₂ colon update rest₃ run ih =>
    have := ih h
    have := length_lt_of_nextMember next
    have := length_lt_of_readColon colon
    have := value.shrinks run
    omega

/-- The members of an object whose opening bracket has been taken. -/
def members (member? : σ → String → Option (Reader (σ → σ))) (state : σ) : Reader σ where
  run := runMembers member? true state
  shrinks := length_lt_of_runMembers

end Reader

end CommandWire.Json
