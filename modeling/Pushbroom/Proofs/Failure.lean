import Mathlib.Data.List.Forall2

namespace Pushbroom
namespace Failure

/-!
# Computations that may fail

A sequence of steps succeeds when each of its steps does, and fails as the first of them
that fails.
-/

variable {ε β γ : Type}

theorem exists_eq_ok_of_isOk {result : Except ε β} (hOk : result.isOk = true) :
    ∃ value, result = .ok value := by
  cases result with
  | error error => cases hOk
  | ok value => exact ⟨value, rfl⟩

theorem eq_ok_of_toOption {result : Except ε β} {value : β}
    (hOption : result.toOption = some value) : result = .ok value := by
  cases result with
  | error error => cases hOption
  | ok other => exact congrArg Except.ok (Option.some.inj hOption)

theorem ok_bind (value : β) (next : β → Except ε γ) :
    (Except.ok value >>= next) = next value :=
  rfl

theorem error_bind (error : ε) (next : β → Except ε γ) :
    ((Except.error error : Except ε β) >>= next) = .error error :=
  rfl

/-- Raising what has failed, in the type it failed in, gives it back. -/
theorem ofExcept_eq (result : Except ε β) :
    (MonadExcept.ofExcept result : Except ε β) = result := by
  cases result <;> rfl

/-- A step followed by another one succeeds when both do. -/
theorem bind_eq_ok {first : Except ε β} {next : β → Except ε γ} {result : γ} :
    first >>= next = .ok result ↔ ∃ value, first = .ok value ∧ next value = .ok result := by
  cases first with
  | error error => simp [bind, Except.bind]
  | ok value => simp [bind, Except.bind]

/-- A step followed by another one fails when the first does, or the second after it. -/
theorem bind_eq_error {first : Except ε β} {next : β → Except ε γ} {error : ε} :
    first >>= next = .error error ↔
      first = .error error ∨ ∃ value, first = .ok value ∧ next value = .error error := by
  cases first with
  | error other => simp [bind, Except.bind]
  | ok value => simp [bind, Except.bind]

/-- What two steps result in, whatever the failure when there is none. -/
theorem toOption_bind (first : Except ε β) (next : β → Except ε γ) :
    (first >>= next).toOption = first.toOption.bind fun value => (next value).toOption := by
  cases first <;> rfl

/-- Answers to a list of requests: one to each, in their order. -/
theorem forall₂_of_mapM_eq_ok {f : β → Except ε γ} {requests : List β} {answers : List γ}
    (hAnswers : requests.mapM f = .ok answers) :
    List.Forall₂ (fun request answer => f request = .ok answer) requests answers := by
  induction requests generalizing answers with
  | nil =>
      cases hAnswers
      exact List.Forall₂.nil
  | cons request rest ih =>
      rw [List.mapM_cons, bind_eq_ok] at hAnswers
      obtain ⟨answer, hAnswer, hOthers⟩ := hAnswers
      obtain ⟨others, hRest, hResult⟩ := bind_eq_ok.mp hOthers
      cases hResult
      exact List.Forall₂.cons hAnswer (ih hRest)

/-- A list of requests is answered when every one of them is. -/
theorem exists_mapM_eq_ok_iff {f : β → Except ε γ} {requests : List β} :
    (∃ answers, requests.mapM f = .ok answers) ↔
      ∀ request ∈ requests, ∃ answer, f request = .ok answer := by
  induction requests with
  | nil => simp [pure, Except.pure]
  | cons request rest ih =>
      rw [List.forall_mem_cons, ← ih]
      constructor
      · rintro ⟨answers, hAnswers⟩
        rw [List.mapM_cons, bind_eq_ok] at hAnswers
        obtain ⟨answer, hAnswer, hOthers⟩ := hAnswers
        obtain ⟨others, hRest, _⟩ := bind_eq_ok.mp hOthers
        exact ⟨⟨answer, hAnswer⟩, ⟨others, hRest⟩⟩
      · rintro ⟨⟨answer, hAnswer⟩, ⟨others, hRest⟩⟩
        refine ⟨answer :: others, ?_⟩
        rw [List.mapM_cons, hAnswer, hRest]
        rfl

/-- When every request that is valid has the answer `g` gives, and no other request has one,
the answers to a list of valid requests are given by `g`. -/
theorem mapM_eq_ok_iff_of {f : β → Except ε γ} {valid : β → Prop} {g : β → γ}
    (hAnswer : ∀ request answer, f request = .ok answer ↔ valid request ∧ answer = g request)
    {requests : List β} {answers : List γ} :
    requests.mapM f = .ok answers ↔
      (∀ request ∈ requests, valid request) ∧ answers = requests.map g := by
  induction requests generalizing answers with
  | nil => simp [pure, Except.pure, eq_comm]
  | cons request rest ih =>
      rw [List.mapM_cons, bind_eq_ok, List.forall_mem_cons, List.map_cons]
      constructor
      · rintro ⟨answer, hFirst, hOthers⟩
        obtain ⟨others, hRest, hResult⟩ := bind_eq_ok.mp hOthers
        cases hResult
        obtain ⟨hValid, rfl⟩ := (hAnswer _ _).mp hFirst
        obtain ⟨hAllValid, rfl⟩ := ih.mp hRest
        exact ⟨⟨hValid, hAllValid⟩, rfl⟩
      · rintro ⟨⟨hValid, hAllValid⟩, rfl⟩
        refine ⟨g request, (hAnswer _ _).mpr ⟨hValid, rfl⟩, ?_⟩
        rw [ih.mpr ⟨hAllValid, rfl⟩]
        rfl

/-- The first request that fails is the failure of the whole list. -/
theorem mapM_eq_error_of_first {f : β → Except ε γ} {before after : List β} {request : β}
    {error : ε} (hBefore : ∀ earlier ∈ before, ∃ answer, f earlier = .ok answer)
    (hFails : f request = .error error) :
    (before ++ request :: after).mapM f = .error error := by
  induction before with
  | nil =>
      rw [List.nil_append, List.mapM_cons, hFails]
      rfl
  | cons earlier rest ih =>
      obtain ⟨answer, hAnswer⟩ := hBefore earlier List.mem_cons_self
      have hRest := ih fun other hOther => hBefore other (List.mem_cons_of_mem earlier hOther)
      rw [List.cons_append, List.mapM_cons, hAnswer, hRest]
      rfl

/-- The failure of a list of requests is that of one of them. -/
theorem exists_of_mapM_eq_error {f : β → Except ε γ} {requests : List β} {error : ε}
    (hFails : requests.mapM f = .error error) : ∃ request ∈ requests, f request = .error error := by
  induction requests with
  | nil => cases hFails
  | cons request rest ih =>
      rw [List.mapM_cons, bind_eq_error] at hFails
      obtain hFirst | ⟨answer, _, hOthers⟩ := hFails
      · exact ⟨request, List.mem_cons_self, hFirst⟩
      · obtain hRest | ⟨others, _, hResult⟩ := bind_eq_error.mp hOthers
        · obtain ⟨other, hMem, hOther⟩ := ih hRest
          exact ⟨other, List.mem_cons_of_mem request hMem, hOther⟩
        · cases hResult

/-- More precisely, it is that of the first one that fails. -/
theorem exists_first_of_mapM_eq_error {f : β → Except ε γ} {requests : List β} {error : ε}
    (hFails : requests.mapM f = .error error) :
    ∃ (i : ℕ) (hIndex : i < requests.length), f requests[i] = .error error ∧
      ∀ j (hEarlier : j < i), ∃ answer, f requests[j] = .ok answer := by
  induction requests with
  | nil => cases hFails
  | cons request rest ih =>
      rw [List.mapM_cons, bind_eq_error] at hFails
      obtain hFirst | ⟨answer, hAnswer, hOthers⟩ := hFails
      · exact ⟨0, Nat.succ_pos _, hFirst, fun j hEarlier => absurd hEarlier (Nat.not_lt_zero j)⟩
      · obtain hRest | ⟨others, -, hResult⟩ := bind_eq_error.mp hOthers
        · obtain ⟨i, hIndex, hAt, hBefore⟩ := ih hRest
          refine ⟨i + 1, Nat.succ_lt_succ hIndex, hAt, fun j hEarlier => ?_⟩
          cases j with
          | zero => exact ⟨answer, hAnswer⟩
          | succ j => exact hBefore j (Nat.lt_of_succ_lt_succ hEarlier)
        · cases hResult

/-! ## Loops none of whose steps fails -/

/-- Requests are answered when each one is by the answer at its place. -/
theorem mapM_eq_ok_of_getElem {f : β → Except ε γ} {requests : List β} {answers : List γ}
    (hLength : requests.length = answers.length)
    (hEach : ∀ i (hIndex : i < requests.length), f requests[i] = .ok answers[i]) :
    requests.mapM f = .ok answers := by
  induction requests generalizing answers with
  | nil =>
      obtain rfl := List.length_eq_zero_iff.mp hLength.symm
      rfl
  | cons request rest ih =>
      obtain ⟨answer, others, rfl⟩ := List.exists_cons_of_length_eq_add_one hLength.symm
      have hFirst := hEach 0 (Nat.succ_pos _)
      have hRest := ih (Nat.succ.inj hLength) fun i hIndex => hEach (i + 1) (by simpa using hIndex)
      rw [List.mapM_cons]
      simp only [List.getElem_cons_zero] at hFirst
      rw [hFirst, hRest]
      rfl

variable {σ : Type}

/-- A loop over one list goes through the states of a loop over another whose steps are the same. -/
theorem foldlM_eq_ok_of_getElem {f : σ → β → Except ε σ} {g : σ → γ → σ} {left : List β}
    {right : List γ} (hLength : left.length = right.length)
    (hEach : ∀ i (hIndex : i < left.length) state, f state left[i] = .ok (g state right[i]))
    (start : σ) : left.foldlM f start = .ok (right.foldl g start) := by
  induction left generalizing right start with
  | nil =>
      obtain rfl := List.length_eq_zero_iff.mp hLength.symm
      rfl
  | cons entry rest ih =>
      obtain ⟨other, others, rfl⟩ := List.exists_cons_of_length_eq_add_one hLength.symm
      have hFirst := hEach 0 (Nat.succ_pos _) start
      simp only [List.getElem_cons_zero] at hFirst
      rw [List.foldlM_cons, hFirst, ok_bind, List.foldl_cons]
      exact ih (Nat.succ.inj hLength) (fun i hIndex => hEach (i + 1) (by simpa using hIndex)) _

/-- A counting loop that goes from each of some states to the next one ends with the last. -/
theorem foldlM_range_eq_ok {f : σ → ℕ → Except ε σ} {n : ℕ} (state : ℕ → σ)
    (hStep : ∀ i < n, f (state i) i = .ok (state (i + 1))) :
    (List.range n).foldlM f (state 0) = .ok (state n) := by
  induction n with
  | zero => rfl
  | succ n ih =>
      rw [List.range_succ, List.foldlM_append,
        ih fun i hLess => hStep i (Nat.lt_succ_of_lt hLess), ok_bind, List.foldlM_cons,
        hStep n (Nat.lt_succ_self n)]
      rfl

/-! ## Outcomes -/

/-- A value, unless something is wrong. -/
def outcome (fault? : Option ε) (value : β) : Except ε β :=
  match fault? with
  | some error => .error error
  | none => .ok value

theorem outcome_eq_ok_iff {fault? : Option ε} {value result : β} :
    outcome fault? value = .ok result ↔ fault? = none ∧ result = value := by
  cases fault? with
  | none => simp [outcome, eq_comm]
  | some error => simp [outcome]

theorem outcome_eq_error_iff {fault? : Option ε} {value : β} {error : ε} :
    outcome fault? value = .error error ↔ fault? = some error := by
  cases fault? <;> simp [outcome]

/-- Steps that do not depend on each other: the first fault of any is that of all. -/
theorem mapM_outcome (fault? : γ → Option ε) (value : γ → β) (requests : List γ) :
    (requests.mapM fun request => outcome (fault? request) (value request)) =
      outcome (requests.findSome? fault?) (requests.map value) := by
  induction requests with
  | nil => rfl
  | cons request rest ih =>
      rw [List.mapM_cons, ih, List.findSome?_cons]
      cases fault? request with
      | some error => rfl
      | none => cases rest.findSome? fault? <;> rfl

end Failure
end Pushbroom
