import Mathlib.Data.List.Destutter
import Pushbroom.Proofs.Filter.Pruning

namespace Pushbroom
namespace Filter

/-!
# Alternation through the rounds

The longest alternating choice among some positions takes one from each run of equal signs, so
the number of these runs tells whether enough of the positions alternate.

A round that drops one of the first two that do not alternate leaves all runs.  A drop anywhere
else may join the neighbours of what is dropped and cost two runs.  When all alternate there are
two to spare, except in the last round, which drops an end and costs one.  Before the first two
that do not alternate there may be none to spare, and what is dropped there leaves too few runs.
-/

/-- The number of runs of equal signs. -/
def runs (signs : List Bool) : ℕ :=
  (signs.destutter (· ≠ ·)).length

theorem length_le_runs {chosen signs : List Bool} (hChosen : chosen.Sublist signs)
    (hChain : chosen.IsChain (· ≠ ·)) : chosen.length ≤ runs signs :=
  hChain.length_le_length_destutter_ne hChosen

theorem isChain_of_length_le_runs {signs : List Bool} (hRuns : signs.length ≤ runs signs) :
    signs.IsChain (· ≠ ·) := by
  have hAll : signs.destutter (· ≠ ·) = signs :=
    (List.destutter_sublist (· ≠ ·) signs).eq_of_length_le hRuns
  rw [← hAll]
  exact List.isChain_destutter (· ≠ ·) signs

/-- Of two equal signs in a row one is enough. -/
theorem runs_twins_le (before : List Bool) (sign : Bool) (after : List Bool) :
    runs (before ++ sign :: sign :: after) ≤ runs (before ++ sign :: after) := by
  have hChain := List.isChain_destutter (R := (· ≠ ·)) (before ++ sign :: sign :: after)
  obtain ⟨left, right, hSplit, hLeft, hRight⟩ := List.sublist_append_iff.mp
    (List.destutter_sublist (· ≠ ·) (before ++ sign :: sign :: after))
  unfold runs at *
  rw [hSplit] at hChain ⊢
  -- what is chosen holds one of the two signs at most
  refine length_le_runs (hLeft.append ?_) hChain
  cases hRight with
  | cons _ hRest => exact hRest
  | cons_cons _ hRest =>
      cases hRest with
      | cons _ hAfter => exact hAfter.cons_cons sign
      | cons_cons _ _ => exact absurd rfl (List.isChain_cons_cons.mp hChain.right_of_append).1

/-- Where all signs change, one that is dropped costs two runs at most. -/
theorem length_le_runs_eraseIdx {signs : List Bool} (hChain : signs.IsChain (· ≠ ·)) {p : ℕ}
    (hp : p < signs.length) : signs.length ≤ runs (signs.eraseIdx p) + 2 := by
  obtain ⟨before, dropped, after, rfl, rfl⟩ :
      ∃ before dropped after, signs = before ++ dropped :: after ∧ before.length = p :=
    ⟨signs.take p, signs[p], signs.drop (p + 1), by simp, by simp [hp.le]⟩
  obtain ⟨hBefore, hAfter, hJoin⟩ := List.isChain_append.mp hChain
  rw [List.eraseIdx_append_of_length_le le_rfl, Nat.sub_self, List.eraseIdx_cons_zero]
  cases after with
  | nil =>
      have hKept := length_le_runs (List.Sublist.refl _) hBefore
      simp
      omega
  | cons neighbour rest =>
      obtain ⟨hNeighbour, hRest⟩ := List.isChain_cons_cons.mp hAfter
      obtain ⟨hNext, hRest⟩ := List.isChain_cons.mp hRest
      -- the neighbours have the same sign, so one of them goes too
      have hOpposite : ∀ a b c d : Bool, a ≠ b → b ≠ c → c ≠ d → a ≠ d := by decide
      have hKept : (before ++ rest).IsChain (· ≠ ·) := hBefore.append hRest fun a ha d hd =>
        hOpposite a dropped neighbour d (hJoin a ha dropped rfl) hNeighbour (hNext d hd)
      have hSublist := (List.sublist_cons_self neighbour rest).append_left before
      have hRuns := length_le_runs hSublist hKept
      simp only [List.length_append, List.length_cons] at hRuns ⊢
      omega

variable {K : Type} [Field K] [LinearOrder K] {n : ℕ}

/-- Whether the numbers at the positions are positive. -/
def signs (values : Fin n → K) (found : List (Fin n)) : List Bool :=
  found.map fun i => decide (0 < values i)

theorem oppositeSigns_iff {x y : K} (hx : x ≠ 0) (hy : y ≠ 0) :
    OppositeSigns x y ↔ decide (0 < x) ≠ decide (0 < y) := by
  rcases hx.lt_or_gt with hx | hx <;> rcases hy.lt_or_gt with hy | hy <;>
    simp [OppositeSigns, hx, hy, hx.asymm, hy.asymm]

theorem changesSign_iff {values : Fin n → K} {found : List (Fin n)}
    (hNonzero : ∀ i ∈ found, values i ≠ 0) :
    ChangesSign values found ↔ (signs values found).IsChain (· ≠ ·) := by
  rw [signs, List.isChain_map]
  exact List.IsChain.iff_of_mem_imp fun i j hi hj =>
    oppositeSigns_iff (hNonzero i hi) (hNonzero j hj)

theorem signs_eraseIdx (values : Fin n → K) (found : List (Fin n)) (p : ℕ) :
    signs values (found.eraseIdx p) = (signs values found).eraseIdx p :=
  (List.eraseIdx_map _ found p).symm

/-! ## Rounds that drop one of a pair -/

/-- Of the first two numbers that do not alternate one is nearer to zero than all before them. -/
def PairIsLeast (values : Fin n → K) (found : List (Fin n)) : Prop :=
  ∀ before x y after, found = before ++ [x, y] ++ after → ChangesSign values (before ++ [x]) →
    ¬ OppositeSigns (values x) (values y) →
    ∀ z ∈ before, min |values x| |values y| < |values z|

/-- What is dropped then is one of the two. -/
theorem IsLeastAt.ofPair {values : Fin n → K} {before : List (Fin n)} {x y : Fin n} {p : ℕ}
    (hLeast : IsLeastAt values (before ++ [x, y]) p)
    (hPair : ∀ z ∈ before, min |values x| |values y| < |values z|) :
    p = before.length ∨ p = before.length + 1 := by
  obtain ⟨i, hEntry, hLe⟩ := hLeast
  have hInside := (List.getElem?_eq_some_iff.mp hEntry).1
  simp only [List.length_append, List.length_cons, List.length_nil] at hInside
  have hBehind : before.length ≤ p := by
    by_contra hBefore
    rw [List.getElem?_append_left (by omega)] at hEntry
    have hLess := hPair i (List.mem_of_getElem? hEntry)
    exact absurd (le_min (hLe x (by simp)) (hLe y (by simp))) (not_le.mpr hLess)
  omega

/-- One of two equal signs in a row is dropped without loss. -/
theorem runs_eraseIdx_twins (before : List Bool) (sign : Bool) (after : List Bool) {p : ℕ}
    (hp : p = before.length ∨ p = before.length + 1) :
    runs (before ++ sign :: sign :: after) ≤
      runs ((before ++ sign :: sign :: after).eraseIdx p) := by
  have hErased : (before ++ sign :: sign :: after).eraseIdx p = before ++ sign :: after := by
    rcases hp with rfl | rfl <;> simp [List.eraseIdx_append_of_length_le]
  rw [hErased]
  exact runs_twins_le before sign after

/-- A round keeps as many runs as positions shall remain. -/
theorem IsSuperfluous.keeps_runs {values : Fin n → K} {count : ℕ} {found : List (Fin n)} {p : ℕ}
    (hDrops : IsSuperfluous values count found p) (hMore : count < found.length)
    (hNonzero : ∀ i ∈ found, values i ≠ 0) (hPair : PairIsLeast values found)
    (hRuns : count ≤ runs (signs values found)) :
    count ≤ runs (signs values (found.eraseIdx p)) := by
  rw [signs_eraseIdx]
  have hLength : (signs values found).length = found.length := List.length_map _
  cases hDrops with
  | ofEnds _ _ _ _ hAlternates hSingle hSmaller =>
      have hChain := (changesSign_iff hNonzero).mp hAlternates
      rcases hSmaller with ⟨-, hEnd⟩ | ⟨-, rfl⟩
      · have hKept := length_le_runs (List.Sublist.refl _) hChain.dropLast
        rw [List.length_dropLast] at hKept
        rw [← List.dropLast_eq_eraseIdx (hEnd.trans hLength.symm)]
        omega
      · have hKept := length_le_runs (List.Sublist.refl _) hChain.tail
        rw [List.length_tail] at hKept
        rw [List.eraseIdx_zero]
        omega
  | ofAll hAlternates hSeveral hLeast =>
      have hChain := (changesSign_iff hNonzero).mp hAlternates
      obtain ⟨i, hEntry, -⟩ := hLeast
      have hInside := (List.getElem?_eq_some_iff.mp hEntry).1
      have hKept := length_le_runs_eraseIdx hChain (hLength.symm ▸ hInside)
      omega
  | ofPrefix before x y after hFound hBefore hOpposite hLeast =>
      have hp := hLeast.ofPair (hPair before x y after hFound hBefore hOpposite)
      have hSigns : decide (0 < values x) = decide (0 < values y) := by
        rw [oppositeSigns_iff (hNonzero x (by simp [hFound])) (hNonzero y (by simp [hFound])),
          not_not] at hOpposite
        exact hOpposite
      have hTwins := runs_eraseIdx_twins (signs values before) (decide (0 < values x))
        (signs values after) (p := p) (by simpa [signs] using hp)
      have hSplit : signs values found =
          signs values before ++ decide (0 < values x) :: decide (0 < values x) ::
            signs values after := by
        simp [hFound, signs, hSigns]
      rw [hSplit] at hRuns ⊢
      exact hRuns.trans hTwins

section Rounds

variable {α : Type} [Scalar α] {errors : Vector α n} {values : Fin n → K}

/-- Whenever the extrema that are left do not alternate, the smallest up to the first two that do
not is one of these two. -/
def DropsOfPairs (errors : Vector α n) (values : Fin n → K) (count : ℕ) :
    ℕ → List (Fin n) → Prop
  | 0, _ => True
  | excess + 1, found =>
    PairIsLeast values found ∧
      DropsOfPairs errors values count excess
        (found.eraseIdx (superfluous count (found.map errors.get)))

/-- The rounds end with as many runs as positions, so these alternate. -/
theorem ReadAs.prune_alternates (hReads : ReadAs errors values) {count : ℕ} (hCount : 1 ≤ count)
    {excess : ℕ} {found : List (Fin n)} (hLength : found.length = count + excess)
    (hNonzero : ∀ i ∈ found, values i ≠ 0) (hRuns : count ≤ runs (signs values found))
    (hPairs : DropsOfPairs errors values count excess found) :
    ChangesSign values (prune errors count excess found) := by
  obtain ⟨hFinal, -⟩ := hReads.prune_induction hCount
    (P := fun excess found => count ≤ runs (signs values found) ∧
      DropsOfPairs errors values count excess found)
    (fun hLength hNonzero hDrops hKept =>
      ⟨hDrops.keeps_runs (by omega) hNonzero hKept.2.1 hKept.1, hKept.2.2⟩)
    hLength hNonzero ⟨hRuns, hPairs⟩
  have hSublist := prune_sublist errors count excess found
  have hAll := length_prune errors count excess found (by omega)
  refine (changesSign_iff fun i hi => hNonzero i (hSublist.subset hi)).mpr
    (isChain_of_length_le_runs ?_)
  rw [signs, List.length_map, hAll, hLength, Nat.add_sub_cancel]
  exact hFinal

end Rounds

variable {α : Type} [Scalar α] [IsStrictOrderedRing K] {errors : Vector α n} {values : Fin n → K}

/-- When `r + 1` local extrema alternate, so do the `r + 1` positions that are chosen, as long as
only pairs that do not alternate lose one of their members before all alternate. -/
theorem selected_alternate (hReads : ReadAs errors values) (hTwo : 2 ≤ n) {r : ℕ}
    {candidates : List (Fin n)} (hSorted : candidates.Pairwise (· < ·))
    (hExtrema : ∀ i ∈ candidates, IsLocalExtremum values i)
    (hLength : candidates.length = r + 1) (hAlternates : ChangesSign values candidates)
    (hPairs : DropsOfPairs errors values (r + 1) ((extrema errors).length - (r + 1))
      (extrema errors)) :
    ∃ positions, selectExtrema (r + 1) errors = .ok positions ∧ positions.length = r + 1 ∧
      ChangesSign values positions := by
  have hNonzero (i : Fin n) (hi : i ∈ extrema errors) : values i ≠ 0 :=
    ((hReads.mem_extrema_iff hTwo i).mp hi).ne_zero
  have hCandidates : candidates.Sublist (extrema errors) :=
    List.sublist_of_subperm_of_pairwise
      (List.subperm_of_subset (hSorted.imp ne_of_lt)
        fun i hi => (hReads.mem_extrema_iff hTwo i).mpr (hExtrema i hi))
      hSorted extrema_pairwise
  have hChain := (changesSign_iff fun i hi => (hExtrema i hi).ne_zero).mp hAlternates
  have hRuns : r + 1 ≤ runs (signs values (extrema errors)) := by
    have hKept := length_le_runs (hCandidates.map fun i => decide (0 < values i)) hChain
    rwa [List.length_map, hLength] at hKept
  have hEnough : r + 1 ≤ (extrema errors).length := hLength ▸ hCandidates.length_le
  have hSelect : selectExtrema (r + 1) errors =
      .ok (prune errors (r + 1) ((extrema errors).length - (r + 1)) (extrema errors)) :=
    selectExtrema_eq_ok_iff.mpr ⟨hEnough, rfl⟩
  exact ⟨_, hSelect, length_of_selectExtrema hSelect,
    hReads.prune_alternates (Nat.le_add_left 1 r) (Nat.add_sub_of_le hEnough).symm hNonzero hRuns
      hPairs⟩

/-- The two positive numbers next to each other lose the smaller one, and three numbers that
alternate are left. -/
theorem selected_alternate_five :
    let errors : Fin 5 → ℚ := ![-5, 3, 1, 2, -4]
    ∃ positions, selectExtrema 3 (Vector.ofFn errors) = .ok positions ∧ positions.length = 3 ∧
      ChangesSign errors positions := by
  intro errors
  have hExtrema : extrema (Vector.ofFn errors) = [0, 1, 3, 4] := by decide +kernel
  have hPair : PairIsLeast errors [0, 1, 3, 4] := by
    rintro before x y after hFound - hSame z hz
    rcases before with _ | ⟨first, _ | ⟨second, _ | ⟨third, before⟩⟩⟩
    · exact absurd hz List.not_mem_nil
    · simp only [List.cons_append, List.nil_append, List.cons.injEq] at hFound
      obtain ⟨rfl, rfl, rfl, -⟩ := hFound
      obtain rfl := List.mem_singleton.mp hz
      decide +kernel
    · simp only [List.cons_append, List.nil_append, List.cons.injEq] at hFound
      obtain ⟨-, -, rfl, rfl, -⟩ := hFound
      exact absurd (by decide +kernel) hSame
    · exact absurd (congrArg List.length hFound) (by simp; omega)
  have hSorted : [0, 1, 4].Pairwise fun i j : Fin 5 => i < j := by decide
  exact selected_alternate (readAs_ofFn errors) (by decide) hSorted (by decide +kernel) rfl
    (by decide +kernel) (by rw [hExtrema]; exact ⟨hPair, trivial⟩)

/-- Four numbers that alternate are all extrema, and the two that are chosen do not alternate. -/
theorem selected_same_sign :
    let errors : Fin 4 → ℚ := ![2, -3, 1, -3]
    extrema (Vector.ofFn errors) = [0, 1, 2, 3] ∧ ChangesSign errors [0, 1, 2, 3] ∧
      selectExtrema 2 (Vector.ofFn errors) = .ok [1, 3] ∧ ¬ ChangesSign errors [1, 3] := by
  refine ⟨by decide +kernel, by decide +kernel, selectExtrema_eq_ok_iff.mpr ?_, by decide +kernel⟩
  decide +kernel

end Filter
end Pushbroom
