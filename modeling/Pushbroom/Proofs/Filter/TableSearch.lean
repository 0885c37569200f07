import Pushbroom.Proofs.Filter.Selection
import Pushbroom.Proofs.Filter.Tables

namespace Pushbroom
namespace Filter
namespace Indexed

/-!
# The search on a table of errors

The extrema found so far are a table of indices into the table of errors.  The scan for the one to
drop looks the errors up through both tables, and an extremum is dropped only if it is there.
Whatever comparisons hold between the errors, every lookup meets an entry, as long as there are two
errors, and the loop that drops extrema ends because their table gets shorter.
-/

variable {α : Type} [Scalar α]

/-- Adds an index to those found if its error is an extremum beside those at the neighbouring
indices. -/
def visit (errors : List α) (left? right? : Option ℕ) (found : List ℕ) (i : ℕ) :
    Except (Error α) (List ℕ) := do
  let here ← entry errors i
  let last? ← left?.mapM (entry errors)
  let next? ← right?.mapM (entry errors)
  return if isExtremum last? next? here then found ++ [i] else found

/-- The indices of all local extrema: the first, then those inside, then the last. -/
def extremaOf (errors : List α) : Except (Error α) (List ℕ) := do
  let first ← visit errors none (some 1) [] 0
  let inner ← (List.range' 1 (errors.length - 2)).foldlM
    (fun found i => visit errors (some (i - 1)) (some (i + 1)) found i) first
  visit errors (some (errors.length - 1 - 1)) none inner (errors.length - 1)

/-- The error at an extremum. -/
def errorAt (errors : List α) (found : List ℕ) (j : ℕ) : Except (Error α) α := do
  let i ← entry found j
  entry errors i

/-- Goes along the extrema, as long as the signs of their errors alternate. -/
def scan (errors : List α) (found : List ℕ) (up : Bool) (smallest : ℕ) :
    List ℕ → Except (Error α) (ℕ × Bool)
  | [] => return (smallest, true)
  | j :: rest => do
    let here ← errorAt errors found j
    let least ← errorAt errors found smallest
    let smallest := if Scalar.abs here < Scalar.abs least then j else smallest
    if up = true ∧ here < 0 then scan errors found false smallest rest
    else if up = false ∧ 0 < here then scan errors found true smallest rest
    else return (smallest, false)

def superfluousOf (errors : List α) (count : ℕ) (found : List ℕ) : Except (Error α) ℕ := do
  let first ← errorAt errors found 0
  let (smallest, alternating) ←
    scan errors found (decide (0 < first)) 0 (List.range' 1 (found.length - 1))
  if alternating = true ∧ found.length = count + 1 then
    let last ← errorAt errors found (found.length - 1)
    return if Scalar.abs last < Scalar.abs first then found.length - 1 else 0
  else return smallest

/-- Drops extrema while there are more than `count`. -/
def pruneOf (errors : List α) (count : ℕ) (found : List ℕ) : Except (Error α) (List ℕ) :=
  if count < found.length then do
    let dropped ← superfluousOf errors count found
    if _hDropped : dropped < found.length then pruneOf errors count (found.eraseIdx dropped)
    else .error (.indexOutOfRange dropped found.length)
  else return found
termination_by found.length
decreasing_by
  rw [List.length_eraseIdx_of_lt _hDropped]
  omega

def searchOf (count : ℕ) (errors : List α) : Except (Error α) (List ℕ) := do
  let found ← extremaOf errors
  let kept ← pruneOf errors count found
  if kept.length < count then .error .filterDesign else return kept

/-! ## Local extrema -/

section Extrema

variable {n : ℕ} (errors : Vector α n)

/-- The indices of the local extrema below `k`. -/
def extremaBelow (k : ℕ) : List ℕ :=
  (((List.finRange n).take k).filter fun i =>
    isExtremum (leftNeighbour? errors i) errors[i.val + 1]? (errors.get i)).map Fin.val

theorem extremaBelow_all : extremaBelow errors n = (extrema errors).map Fin.val := by
  rw [extremaBelow, List.take_of_length_le (by simp)]
  rfl

theorem extremaBelow_succ {k : ℕ} (hIndex : k < n) :
    extremaBelow errors (k + 1) =
      if isExtremum (leftNeighbour? errors ⟨k, hIndex⟩) errors[k + 1]? errors[k] then
        extremaBelow errors k ++ [k]
      else extremaBelow errors k := by
  have hTake : (List.finRange n).take (k + 1) = (List.finRange n).take k ++ [⟨k, hIndex⟩] := by
    rw [List.take_succ_eq_append_getElem (by simpa using hIndex), List.getElem_finRange]
    rfl
  have hHere : errors.get ⟨k, hIndex⟩ = errors[k] := rfl
  rw [extremaBelow, hTake, List.filter_append, List.map_append, List.filter_singleton, hHere]
  split <;> simp_all [extremaBelow]

theorem visit_eq {k : ℕ} (hIndex : k < n) {left? right? : Option ℕ}
    (hLeft : left? = if k = 0 then none else some (k - 1))
    (hRight : right? = if k + 1 < n then some (k + 1) else none) :
    visit errors.toList left? right? (extremaBelow errors k) k =
      .ok (extremaBelow errors (k + 1)) := by
  have hLast : left?.mapM (entry errors.toList) =
      (.ok (leftNeighbour? errors ⟨k, hIndex⟩) : Except (Error α) (Option α)) := by
    rw [hLeft, leftNeighbour?]
    split
    · rfl
    · rw [Option.mapM_some, entry_eq (by simp; omega)]
      simp [show k - 1 < n by omega, Functor.map, Except.map]
  have hNext : right?.mapM (entry errors.toList) =
      (.ok errors[k + 1]? : Except (Error α) (Option α)) := by
    rw [hRight]
    split
    · rw [Option.mapM_some, entry_eq (by simpa)]
      simp [*, Functor.map, Except.map]
    · simp [*, pure, Except.pure]
  rw [visit, entry_eq (by simpa using hIndex), Failure.ok_bind, hLast, Failure.ok_bind, hNext,
    Failure.ok_bind, extremaBelow_succ errors hIndex]
  simp [pure, Except.pure]

/-- With two errors at least, every one is compared with those beside it. -/
theorem extremaOf_eq (hTwo : 2 ≤ n) :
    extremaOf errors.toList = .ok ((extrema errors).map Fin.val) := by
  have hFirst : visit errors.toList none (some 1) [] 0 = .ok (extremaBelow errors 1) :=
    visit_eq errors (Nat.lt_of_lt_of_le Nat.two_pos hTwo) rfl (if_pos hTwo).symm
  have hInner := Failure.foldlM_range_eq_ok (n := n - 2)
    (f := fun found i => visit errors.toList (some (1 + i - 1)) (some (1 + i + 1)) found (1 + i))
    (fun i => extremaBelow errors (i + 1)) fun i hLess => by
      have hIndex : 1 + i < n := by omega
      rw [Nat.add_comm i 1]
      exact visit_eq errors hIndex (if_neg (by omega)).symm (if_pos (by omega)).symm
  have hLast : visit errors.toList (some (n - 1 - 1)) none (extremaBelow errors (n - 1)) (n - 1) =
      .ok (extremaBelow errors n) := by
    obtain ⟨k, rfl⟩ : ∃ k, n = k + 1 := ⟨n - 1, by omega⟩
    exact visit_eq errors (Nat.lt_succ_self k) (if_neg (by omega)).symm (if_neg (by omega)).symm
  rw [extremaOf, hFirst, Failure.ok_bind, Vector.length_toList, List.range'_eq_map_range,
    List.foldlM_map, hInner, Failure.ok_bind, show n - 2 + 1 = n - 1 by omega, hLast,
    extremaBelow_all]

end Extrema

/-! ## Dropping extrema -/

section Prune

variable {n : ℕ} {errors : Vector α n} {found : List (Fin n)}

omit [Scalar α] in
theorem errorAt_eq {j : ℕ} (hIndex : j < (found.map errors.get).length) :
    errorAt errors.toList (found.map Fin.val) j = .ok (found.map errors.get)[j] := by
  have hFound : j < found.length := by simpa using hIndex
  rw [errorAt, entry_eq (by simpa using hFound), Failure.ok_bind, entry_eq (by simp)]
  simp [Vector.get]

/-- Looked up through the table of extrema, the errors are those of the extrema in their order. -/
theorem scan_eq {rest : List α} {position smallest : ℕ} (up : Bool)
    (hRest : (found.map errors.get).drop position = rest)
    (hSmallest : smallest < (found.map errors.get).length) :
    scan errors.toList (found.map Fin.val) up smallest (List.range' position rest.length) =
      .ok (scanSigns up (smallest, (found.map errors.get)[smallest]) position rest) := by
  -- on the errors still to come; the smallest so far is looked up here and carried along there
  induction rest generalizing position smallest up with
  | nil => rfl
  | cons error rest ih =>
      have hIndex : position < (found.map errors.get).length := by
        by_contra hEnd
        rw [List.drop_eq_nil_of_le (not_lt.mp hEnd)] at hRest
        cases hRest
      rw [List.drop_eq_getElem_cons hIndex] at hRest
      obtain ⟨hError, hNext⟩ := List.cons.inj hRest
      rw [List.length_cons, List.range'_succ, scan, errorAt_eq hIndex, Failure.ok_bind,
        errorAt_eq hSmallest, Failure.ok_bind, scanSigns, hError]
      have hScan (up : Bool) : scan errors.toList (found.map Fin.val) up
          (if Scalar.abs error < Scalar.abs (found.map errors.get)[smallest] then position
            else smallest) (List.range' (position + 1) rest.length) =
          .ok (scanSigns up
            (if Scalar.abs error < Scalar.abs (found.map errors.get)[smallest] then
              (position, error)
            else (smallest, (found.map errors.get)[smallest])) (position + 1) rest) := by
        split
        · rw [← hError]
          exact ih up hNext hIndex
        · exact ih up hNext hSmallest
      dsimp only
      split
      · exact hScan false
      · split
        · exact hScan true
        · split <;> rfl

theorem superfluousOf_eq (count : ℕ) (hSome : found ≠ []) :
    superfluousOf errors.toList count (found.map Fin.val) =
      .ok (superfluous count (found.map errors.get)) := by
  obtain ⟨first, rest, hErrors⟩ : ∃ first rest, found.map errors.get = first :: rest :=
    List.exists_cons_of_ne_nil (mt List.map_eq_nil_iff.mp hSome)
  have hLength : found.length = rest.length + 1 := by simpa using congrArg List.length hErrors
  have hFirst : errorAt errors.toList (found.map Fin.val) 0 = .ok first := by
    rw [errorAt_eq (by simp [hErrors])]
    simp [hErrors]
  have hLast : errorAt errors.toList (found.map Fin.val) (found.length - 1) =
      .ok ((first :: rest).getLast (List.cons_ne_nil first rest)) := by
    rw [errorAt_eq (by simp [hLength])]
    simp [hErrors, hLength, List.getLast_eq_getElem]
  have hScan : scan errors.toList (found.map Fin.val) (decide (0 < first)) 0
      (List.range' 1 (found.length - 1)) =
        .ok (scanSigns (decide (0 < first)) (0, first) 1 rest) := by
    have hRest : (found.map errors.get).drop 1 = rest := by
      rw [hErrors]
      rfl
    have hZero : 0 < (found.map errors.get).length := by
      rw [hErrors]
      exact Nat.succ_pos _
    have hScan := scan_eq (decide (0 < first)) hRest hZero
    simpa [hErrors, hLength] using hScan
  rw [superfluousOf, hFirst, Failure.ok_bind, List.length_map, hScan, Failure.ok_bind, hErrors,
    superfluous, List.getLast?_eq_some_getLast (List.cons_ne_nil first rest), List.length_cons,
    ← hLength]
  generalize scanSigns (decide (0 < first)) (0, first) 1 rest = scanned
  dsimp only
  split
  · rw [hLast, Failure.ok_bind]
    rfl
  · rfl

/-- The loop drops the extrema that are in excess, one at a time. -/
theorem pruneOf_eq (count : ℕ) (found : List (Fin n)) :
    pruneOf errors.toList count (found.map Fin.val) =
      .ok ((prune errors count (found.length - count) found).map Fin.val) := by
  -- on the excess, which is the fuel of the loop on the errors and one less after each drop
  induction hExcess : found.length - count generalizing found with
  | zero =>
      rw [pruneOf, if_neg (by rw [List.length_map]; omega)]
      rfl
  | succ excess ih =>
      have hSome : found ≠ [] := List.ne_nil_of_length_pos (by omega)
      have hErrors : found.map errors.get ≠ [] := mt List.map_eq_nil_iff.mp hSome
      have hDropped := superfluous_lt count hErrors
      rw [List.length_map] at hDropped
      rw [pruneOf, if_pos (by rw [List.length_map]; omega), superfluousOf_eq count hSome,
        Failure.ok_bind, dif_pos (by rwa [List.length_map]), prune_succ, List.eraseIdx_map]
      exact ih _ (by rw [length_eraseIdx_superfluous errors count hSome]; omega)

/-- The search on a table of at least two errors is the search on the errors. -/
theorem searchOf_eq (hTwo : 2 ≤ n) (count : ℕ) :
    searchOf count errors.toList =
      (selectExtrema count errors).map (List.map Fin.val) := by
  rw [searchOf, extremaOf_eq errors hTwo, Failure.ok_bind, pruneOf_eq, Failure.ok_bind,
    List.length_map, length_prune _ _ _ _ (Nat.sub_le _ _), selectExtrema]
  by_cases hFew : (extrema errors).length < count
  · rw [if_pos hFew, if_pos (by omega)]
    rfl
  · rw [if_neg hFew, if_neg (by omega)]
    rfl

end Prune

end Indexed
end Filter
end Pushbroom
