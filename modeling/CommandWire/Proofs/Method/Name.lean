import CommandWire.Method.Basic

/-!
# Simple names

The simple name of an interface is what follows its last separator, be it a double colon or a dot.
It has no separator itself, so taking the simple name of a simple name changes nothing
(`lastSegment_lastSegment`). That is what lets a receiver look up the name it has read as if it were
a full one. Nor does it matter what stands in front of a separator (`lastSegment_append_dot`,
`lastSegment_append_doubleColon`).
-/

namespace CommandWire

/-- Either there is no dot, or what is taken follows the last one. -/
theorem afterDot_cases (best cs : List Char) :
    ('.' ∉ cs ∧ afterDot best cs = best) ∨
      ∃ front, cs = front ++ '.' :: afterDot best cs ∧ '.' ∉ afterDot best cs := by
  induction cs generalizing best with
  | nil => exact .inl ⟨List.not_mem_nil, rfl⟩
  | cons c rest ih =>
    rw [afterDot]
    by_cases hc : c = '.'
    · rw [if_pos hc]
      -- This dot counts unless there is a later one.
      rcases ih rest with ⟨hn, he⟩ | ⟨front, he, hn⟩
      · rw [he]
        exact .inr ⟨[], by rw [hc]; rfl, hn⟩
      · exact .inr ⟨c :: front, congrArg (c :: ·) he, hn⟩
    · rw [if_neg hc]
      rcases ih best with ⟨hn, he⟩ | ⟨front, he, hn⟩
      · refine .inl ⟨?_, he⟩
        rw [List.mem_cons, not_or]
        exact ⟨Ne.symm hc, hn⟩
      · exact .inr ⟨c :: front, congrArg (c :: ·) he, hn⟩

/-- A double colon in the text. -/
abbrev HasDoubleColon (cs : List Char) : Prop := [':', ':'] <:+: cs

theorem hasDoubleColon_cons {c : Char} {cs : List Char} :
    HasDoubleColon (c :: cs) ↔ (c = ':' ∧ cs.head? = some ':') ∨ HasDoubleColon cs := by
  rw [HasDoubleColon, List.infix_cons_iff, List.cons_prefix_cons]
  cases cs with
  | nil => simp
  | cons d ds =>
    rw [List.cons_prefix_cons, List.head?_cons, Option.some.injEq]
    simp only [List.nil_prefix, and_true, eq_comm]

/-- Either there is no double colon, or what is taken follows the last one; even with the second
colon in front it has none. -/
theorem afterDoubleColon_cases (best cs : List Char) :
    (¬ HasDoubleColon cs ∧ afterDoubleColon best cs = best) ∨
      ∃ front, cs = front ++ ':' :: ':' :: afterDoubleColon best cs ∧
        ¬ HasDoubleColon (':' :: afterDoubleColon best cs) := by
  induction cs generalizing best with
  | nil => exact .inl ⟨by simp [HasDoubleColon], rfl⟩
  | cons c rest ih =>
    rw [afterDoubleColon, hasDoubleColon_cons]
    by_cases hc : c = ':' ∧ rest.head? = some ':'
    · rw [if_pos hc]
      rcases ih rest.tail with ⟨hn, he⟩ | ⟨front, he, hn⟩
      · obtain ⟨rest, rfl⟩ := List.head?_eq_some_iff.1 hc.2
        rw [he]
        exact .inr ⟨[], by rw [hc.1]; rfl, hn⟩
      · exact .inr ⟨c :: front, congrArg (c :: ·) he, hn⟩
    · rw [if_neg hc]
      rcases ih best with ⟨hn, he⟩ | ⟨front, he, hn⟩
      · exact .inl ⟨fun h => h.elim hc hn, he⟩
      · exact .inr ⟨c :: front, congrArg (c :: ·) he, hn⟩

theorem afterDoubleColon_of_not {cs : List Char} (h : ¬ HasDoubleColon cs) (best : List Char) :
    afterDoubleColon best cs = best := by
  rcases afterDoubleColon_cases best cs with ⟨_, he⟩ | ⟨front, he, _⟩
  · exact he
  · exact absurd ⟨front, _, by rw [List.append_assoc]; exact he.symm⟩ h

/-- A text without separators. -/
def IsSegment (text : String) : Prop := '.' ∉ text.toList ∧ ¬ HasDoubleColon text.toList

theorem isSegment_lastSegment (name : String) : IsSegment (lastSegment name) := by
  have hcolon : ¬ HasDoubleColon (afterDoubleColon name.toList name.toList) := by
    rcases afterDoubleColon_cases name.toList name.toList with ⟨hn, he⟩ | ⟨_, _, hn⟩
    · rwa [he]
    · exact fun h => hn (hasDoubleColon_cons.2 (.inr h))
  rw [IsSegment, lastSegment, String.toList_ofList]
  generalize afterDoubleColon name.toList name.toList = tail at hcolon
  rcases afterDot_cases tail tail with ⟨hn, he⟩ | ⟨front, he, hn⟩
  · rw [he]
    exact ⟨hn, hcolon⟩
  · refine ⟨hn, fun h => hcolon ?_⟩
    rw [he]
    exact h.trans ⟨front ++ ['.'], [], by simp⟩

theorem lastSegment_of_isSegment {name : String} (h : IsSegment name) :
    lastSegment name = name := by
  have hcolon : afterDoubleColon name.toList name.toList = name.toList :=
    afterDoubleColon_of_not h.2 name.toList
  have hdot : afterDot name.toList name.toList = name.toList := by
    rcases afterDot_cases name.toList name.toList with ⟨_, he⟩ | ⟨front, he, _⟩
    · exact he
    · exact absurd (he ▸ by simp) h.1
  rw [lastSegment, hcolon, hdot, String.ofList_toList]

theorem lastSegment_lastSegment (name : String) :
    lastSegment (lastSegment name) = lastSegment name :=
  lastSegment_of_isSegment (isSegment_lastSegment name)

/-- What is taken of a name is its end, and in front of it is nothing or a separator. -/
theorem exists_front_lastSegment (name : String) : ∃ front, front ++ lastSegment name = name ∧
    (front = "" ∨ ∃ before, front = before ++ "." ∨ front = before ++ "::") := by
  have hcolon : ∃ front, name.toList = front ++ afterDoubleColon name.toList name.toList ∧
      (front = [] ∨ ∃ before, front = before ++ [':', ':']) := by
    rcases afterDoubleColon_cases name.toList name.toList with ⟨_, he⟩ | ⟨before, he, _⟩
    · exact ⟨[], he.symm, .inl rfl⟩
    · exact ⟨before ++ [':', ':'], by rw [List.append_assoc]; exact he, .inr ⟨before, rfl⟩⟩
  rw [lastSegment]
  generalize afterDoubleColon name.toList name.toList = tail at hcolon
  obtain ⟨outer, hname, houter⟩ := hcolon
  rcases afterDot_cases tail tail with ⟨_, he⟩ | ⟨before, he, _⟩
  · -- Without a dot it is what precedes the tail.
    refine ⟨.ofList outer, ?_, ?_⟩
    · rw [he, ← String.ofList_append, ← hname, String.ofList_toList]
    · rcases houter with rfl | ⟨before, rfl⟩
      · exact .inl rfl
      · exact .inr ⟨.ofList before, .inr String.ofList_append⟩
  · refine ⟨.ofList (outer ++ before ++ ['.']), ?_, .inr ⟨.ofList (outer ++ before), ?_⟩⟩
    · rw [← String.ofList_append, List.append_assoc, List.append_assoc, List.singleton_append,
        ← he, ← hname, String.ofList_toList]
    · exact .inl String.ofList_append

theorem lastSegment_suffix (name : String) : (lastSegment name).toList <:+ name.toList := by
  obtain ⟨front, hname, _⟩ := exists_front_lastSegment name
  exact ⟨front.toList, by rw [← String.toList_append, hname]⟩

/-! ### Longer names -/

/-- A dot hides all dots before it. -/
theorem afterDot_append (best front cs : List Char) :
    afterDot best (front ++ '.' :: cs) = afterDot cs cs := by
  induction front generalizing best with
  | nil => rfl
  | cons c front ih => exact ih _

/-- A double colon hides all double colons before it, unless the next character is a colon too. -/
theorem afterDoubleColon_append (best front : List Char) {cs : List Char}
    (h : cs.head? ≠ some ':') :
    afterDoubleColon best (front ++ ':' :: ':' :: cs) = afterDoubleColon cs cs := by
  induction front generalizing best with
  | nil =>
    rw [List.nil_append, afterDoubleColon, if_pos ⟨rfl, rfl⟩, afterDoubleColon,
      if_neg fun hc => h hc.2]
    rfl
  | cons c front ih => exact ih _

/-- Where there is a double colon, what is taken is the same whatever has been found before. -/
theorem afterDoubleColon_congr {cs : List Char} (h : HasDoubleColon cs) (best other : List Char) :
    afterDoubleColon best cs = afterDoubleColon other cs := by
  induction cs generalizing best other with
  | nil => simp [HasDoubleColon] at h
  | cons c rest ih =>
    rw [afterDoubleColon, afterDoubleColon]
    rcases hasDoubleColon_cons.1 h with hc | hrest
    · rw [if_pos hc, if_pos hc]
    · exact ih hrest _ _

/-- Before a dot only a front can be taken away: the text from the dot on is kept. -/
theorem afterDoubleColon_append_dot (kept front cs : List Char) :
    ∃ kept', afterDoubleColon (kept ++ '.' :: cs) (front ++ '.' :: cs) =
      afterDoubleColon (kept' ++ '.' :: cs) cs := by
  induction front generalizing kept with
  | nil => exact ⟨kept, rfl⟩
  | cons c front ih =>
    rw [List.cons_append, afterDoubleColon]
    by_cases hc : c = ':' ∧ (front ++ '.' :: cs).head? = some ':'
    · rw [if_pos hc]
      cases front with
      | nil => cases hc.2
      | cons d front => exact ih front
    · rw [if_neg hc]
      exact ih kept

theorem lastSegment_append_dot (front name : String) :
    lastSegment (front ++ "." ++ name) = lastSegment name := by
  have hname : (front ++ "." ++ name).toList = front.toList ++ '.' :: name.toList := by
    rw [String.toList_append, String.toList_append, List.append_assoc]
    rfl
  obtain ⟨kept, hkept⟩ := afterDoubleColon_append_dot front.toList front.toList name.toList
  rw [lastSegment, lastSegment, hname, hkept]
  by_cases hcolon : HasDoubleColon name.toList
  · rw [afterDoubleColon_congr hcolon _ name.toList]
  · rw [afterDoubleColon_of_not hcolon, afterDoubleColon_of_not hcolon, afterDot_append]

theorem lastSegment_append_doubleColon (front : String) {name : String}
    (h : name.toList.head? ≠ some ':') :
    lastSegment (front ++ "::" ++ name) = lastSegment name := by
  have hname : (front ++ "::" ++ name).toList = front.toList ++ ':' :: ':' :: name.toList := by
    rw [String.toList_append, String.toList_append, List.append_assoc]
    rfl
  rw [lastSegment, lastSegment, hname, afterDoubleColon_append _ _ h]

/-- **The last segment of a name follows its last separator.** It is the end of the name and has no
separator itself, and in front of it is nothing or a separator. So it is its own last segment, and
to put anything with a separator in front of a name does not change the last segment. Only where the
name begins with a colon, that colon could become part of a double colon. -/
theorem lastSegment_follows_last_separator (name : String) :
    IsSegment (lastSegment name) ∧
    (∃ front, front ++ lastSegment name = name ∧
      (front = "" ∨ ∃ before, front = before ++ "." ∨ front = before ++ "::")) ∧
    lastSegment (lastSegment name) = lastSegment name ∧
    (∀ front, lastSegment (front ++ "." ++ name) = lastSegment name) ∧
    (∀ front, name.toList.head? ≠ some ':' →
      lastSegment (front ++ "::" ++ name) = lastSegment name) :=
  ⟨isSegment_lastSegment name, exists_front_lastSegment name, lastSegment_lastSegment name,
    fun front => lastSegment_append_dot front name,
    fun front => lastSegment_append_doubleColon front⟩

/-- Of three colons the last two are the separator. -/
theorem lastSegment_follows_last_separator_colons :
    "cache.Commands".toList.head? ≠ some ':' ∧
      lastSegment ("io:" ++ "::" ++ "cache.Commands") = "Commands" := by
  have hhead : "cache.Commands".toList.head? ≠ some ':' := by decide
  have hshort : lastSegment "cache.Commands" = "Commands" := by decide
  obtain ⟨-, -, -, -, hcolons⟩ := lastSegment_follows_last_separator "cache.Commands"
  exact ⟨hhead, (hcolons "io:" hhead).trans hshort⟩

/-- A colon at the beginning goes to the separator. -/
example : lastSegment ":Commands" = ":Commands" ∧
    lastSegment ("cache" ++ "::" ++ ":Commands") = "Commands" := by
  decide

end CommandWire
