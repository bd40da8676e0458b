import CommandWire.Proofs.PublishScope.Request

/-!
# What a publish scope has been through

A publish scope is called, and now and then it is cleared. Beside it stand the calls that have been
made since (`History`). The scope remembers exactly the answers of those that have succeeded, each
under its key, and holds what the one call was about that has asked its codec (`History.Sound`).
Every step keeps it so (`History.Sound.step`).

Calls with different keys have nothing to do with each other: what is remembered under some keys is
the same if all calls with other keys are left out (`agreeOn_run`).
-/

namespace CommandWire.PublishScope

/-! ### Histories -/

/-- A call that has been made, and what has come of it. -/
structure Made : Type 1 where
  request : Request
  result : Except CodecError Answer
  calls : List Call

/-- The call has asked its codec, and the codec has not failed. -/
def Made.computed (m : Made) : Bool := !m.calls.isEmpty && m.result.isOk

/-- What can happen to a publish scope. -/
inductive Step : Type 1 where
  | call (request : Request)
  | clear

/-- A publish scope, and the calls that have been made since it was cleared, or from the first one
on. -/
structure History : Type 1 where
  scope : PublishScope
  past : List Made

namespace History

def start : History := ⟨.empty, []⟩

def step (h : History) : Step → History
  | .call request =>
    let done := h.scope.perform request
    ⟨done.scope, h.past ++ [⟨request, done.result, done.calls⟩]⟩
  | .clear => start

/-- What some steps lead to. -/
def run (steps : List Step) : History := steps.foldl step start

/-- A call with the key has returned the answer. -/
def Returned (h : History) (key : Key) (answer : Answer) : Prop :=
  ∃ m ∈ h.past, m.request.key = key ∧ m.result = .ok answer

/-- The keys of the calls that have asked their codecs and not been told a failure. -/
def computedKeys (h : History) : List Key :=
  (h.past.filter Made.computed).map fun m => m.request.key

/-- The scope remembers what has been returned, and by whom it was computed. -/
structure Sound (h : History) : Prop where
  returned_iff : ∀ key answer,
    (h.scope.find? key).map Known.answer = some answer ↔ h.Returned key answer
  held_eq : ∀ m ∈ h.past, m.computed = true →
    (h.scope.find? m.request.key).map Known.held = some m.request.held
  keys_nodup : h.scope.keys.Nodup
  keys_perm : h.scope.keys.Perm h.computedKeys

theorem returned_append (scope scope' : PublishScope) (past : List Made) (m : Made) (key : Key)
    (answer : Answer) : (⟨scope', past ++ [m]⟩ : History).Returned key answer ↔
      (⟨scope, past⟩ : History).Returned key answer ∨
        (m.request.key = key ∧ m.result = .ok answer) := by
  simp [Returned, or_and_right, exists_or]

theorem computedKeys_append (scope scope' : PublishScope) (past : List Made) (m : Made) :
    (⟨scope', past ++ [m]⟩ : History).computedKeys =
      (⟨scope, past⟩ : History).computedKeys ++ if m.computed then [m.request.key] else [] := by
  cases h : m.computed <;> simp [computedKeys, h]

theorem sound_start : start.Sound where
  returned_iff key answer := by
    cases key <;> simp [start, Returned, find?, empty]
  held_eq _ hm := absurd hm List.not_mem_nil
  keys_nodup := List.nodup_nil
  keys_perm := .refl _

namespace Sound

variable {h : History}

/-- A call that has not added anything, and returns nothing but what is remembered. -/
theorem append (hs : h.Sound) {m : Made} (hm : m.computed = false)
    (hreturned : ∀ answer, m.result = .ok answer →
      (h.scope.find? m.request.key).map Known.answer = some answer) :
    Sound ⟨h.scope, h.past ++ [m]⟩ where
  returned_iff key answer := by
    rw [returned_append h.scope, ← hs.returned_iff]
    refine ⟨.inl, ?_⟩
    rintro (hold | ⟨rfl, hanswer⟩)
    · exact hold
    · exact hreturned answer hanswer
  held_eq other hother hcomputed := by
    obtain hother | hother := List.mem_append.1 hother
    · exact hs.held_eq other hother hcomputed
    · rw [List.mem_singleton.1 hother, hm] at hcomputed
      cases hcomputed
  keys_nodup := hs.keys_nodup
  keys_perm := by
    rw [computedKeys_append h.scope, hm]
    simpa using hs.keys_perm

/-- A call that has computed an answer which was not remembered, and has added it. -/
theorem add (hs : h.Sound) {m : Made} (hm : m.computed = true) {answer : Answer}
    (hanswer : m.result = .ok answer) {scope : PublishScope}
    (hnone : h.scope.find? m.request.key = none)
    (hadds : h.scope.Adds m.request.key ⟨m.request.held, answer⟩ scope) :
    Sound ⟨scope, h.past ++ [m]⟩ where
  returned_iff key other := by
    rw [returned_append h.scope, ← hs.returned_iff, hadds.find?_eq]
    by_cases hkey : m.request.key = key
    · -- Nothing has been returned under this key before.
      subst hkey
      simp [hnone, hanswer]
    · simp [hkey]
  held_eq other hother hcomputed := by
    rw [hadds.find?_eq]
    obtain hother | hother := List.mem_append.1 hother
    · -- It was for another key, since nothing has been found under this one.
      have hheld := hs.held_eq other hother hcomputed
      rw [if_neg, hheld]
      intro hsame
      rw [← hsame, hnone] at hheld
      cases hheld
    · rw [List.mem_singleton.1 hother, if_pos rfl]
      rfl
  keys_nodup := by
    rw [hadds.keys_perm.nodup_iff, List.nodup_cons, mem_keys_iff, hnone]
    exact ⟨nofun, hs.keys_nodup⟩
  keys_perm := by
    rw [computedKeys_append h.scope, hm]
    exact hadds.keys_perm.trans ((hs.keys_perm.cons _).trans (List.perm_append_singleton _ _).symm)

/-- Every step keeps history and scope together. -/
theorem step (hs : h.Sound) (step : Step) : (h.step step).Sound := by
  cases step with
  | clear => exact sound_start
  | call request =>
    have hdoes := h.scope.does_perform request
    rw [History.step]
    generalize h.scope.perform request = o at hdoes
    cases hdoes with
    | found hfind =>
      refine hs.append rfl fun answer hanswer => ?_
      rw [hfind, Request.eq_of_accept hanswer]
      rfl
    | failed _ _ => exact hs.append rfl nofun
    | added hnone _ hadds => exact hs.add rfl rfl hnone hadds

theorem foldl_step (hs : h.Sound) (steps : List Step) : (steps.foldl History.step h).Sound := by
  induction steps generalizing h with
  | nil => exact hs
  | cons step steps ih => exact ih (hs.step step)

end Sound

theorem sound_run (steps : List Step) : (run steps).Sound :=
  sound_start.foldl_step steps

end History

/-! ### Keys apart -/

/-- The step is a call with such a key, or clears the scope. -/
def Step.keeps (p : Key → Bool) : Step → Bool
  | call request => p request.key
  | clear => true

/-- The scopes remember the same under such keys. -/
def AgreeOn (p : Key → Bool) (s t : PublishScope) : Prop :=
  ∀ key, p key = true → s.find? key = t.find? key

namespace AgreeOn

variable {p : Key → Bool} {s t : PublishScope}

/-- A call with such a key does the same in both. -/
theorem perform (h : AgreeOn p s t) {request : Request} (hp : p request.key = true) :
    AgreeOn p (s.perform request).scope (t.perform request).scope := by
  intro other hother
  rw [find?_perform, find?_perform, h _ hp, h _ hother]

/-- A call with another key makes no difference. -/
theorem perform_left (h : AgreeOn p s t) {request : Request} (hp : p request.key = false) :
    AgreeOn p (s.perform request).scope t := by
  intro other hother
  have hne : request.key ≠ other := by
    rintro rfl
    rw [hp] at hother
    cases hother
  rw [find?_perform, ← h _ hother]
  split
  next => rw [if_neg hne]
  next => rfl

/-- By induction on the steps: those that are left out are calls with other keys. -/
theorem foldl_step {h h' : History} (hagree : AgreeOn p h.scope h'.scope) (steps : List Step) :
    AgreeOn p (steps.foldl History.step h).scope
      ((steps.filter (Step.keeps p)).foldl History.step h').scope := by
  induction steps generalizing h h' with
  | nil => exact hagree
  | cons step steps ih =>
    cases step with
    | clear => exact ih fun _ _ => rfl
    | call request =>
      rw [List.foldl_cons]
      cases hp : p request.key with
      | true =>
        have hkeeps : Step.keeps p (.call request) = true := hp
        rw [List.filter_cons_of_pos hkeeps]
        exact ih (hagree.perform hp)
      | false =>
        have hkeeps : ¬ Step.keeps p (.call request) = true := Bool.eq_false_iff.1 hp
        rw [List.filter_cons_of_neg hkeeps]
        exact ih (hagree.perform_left hp)

end AgreeOn

theorem agreeOn_run (p : Key → Bool) (steps : List Step) :
    AgreeOn p (History.run steps).scope (History.run (steps.filter (Step.keeps p))).scope :=
  AgreeOn.foldl_step (fun _ _ => rfl) steps

end CommandWire.PublishScope
