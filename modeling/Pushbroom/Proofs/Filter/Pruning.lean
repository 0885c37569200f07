import Pushbroom.Proofs.Filter.LocalExtrema
import Pushbroom.Proofs.Filter.Selection

namespace Pushbroom
namespace Filter

/-!
# Dropping superfluous extrema

A round goes along the extrema that are left, up to the second of the first two whose errors do
not have opposite signs, or to the end when all alternate.  It drops the smallest of those it has
met, or the smaller of the two ends when all alternate and a single one is in excess.

Either way something at least as large as what is dropped is left, so the largest magnitude among
the extrema outlasts all rounds.
-/

variable {K : Type} [Field K] [LinearOrder K] {n : ℕ}

/-- Two numbers on different sides of zero. -/
def OppositeSigns (x y : K) : Prop :=
  (0 < x ∧ y < 0) ∨ (x < 0 ∧ 0 < y)

instance (x y : K) : Decidable (OppositeSigns x y) :=
  inferInstanceAs (Decidable (_ ∨ _))

/-- The numbers at the positions change sign from each to the next. -/
def ChangesSign (values : Fin n → K) (found : List (Fin n)) : Prop :=
  found.IsChain fun i j => OppositeSigns (values i) (values j)

instance (values : Fin n → K) (found : List (Fin n)) : Decidable (ChangesSign values found) :=
  inferInstanceAs (Decidable (List.IsChain _ found))

/-- None of the numbers at the positions is nearer to zero than the one at the given entry. -/
def IsLeastAt (values : Fin n → K) (found : List (Fin n)) (p : ℕ) : Prop :=
  ∃ i, found[p]? = some i ∧ ∀ j ∈ found, |values i| ≤ |values j|

/-- How a scan splits the positions into those it meets and those it leaves out, and whether all
alternate. -/
inductive ScansTo (values : Fin n → K) : List (Fin n) → List (Fin n) → Bool → Prop
  | all {met : List (Fin n)} (hAlternates : ChangesSign values met) : ScansTo values met [] true
  | upToPair {before after : List (Fin n)} {x y : Fin n}
      (hBefore : ChangesSign values (before ++ [x]))
      (hPair : ¬ OppositeSigns (values x) (values y)) :
      ScansTo values (before ++ [x, y]) after false

/-- What a round may drop when `count` positions shall remain. -/
inductive IsSuperfluous (values : Fin n → K) (count : ℕ) (found : List (Fin n)) (p : ℕ) : Prop
  | ofEnds (first : Fin n) (middle : List (Fin n)) (last : Fin n)
      (hFound : found = first :: (middle ++ [last])) (hAlternates : ChangesSign values found)
      (hSingle : found.length = count + 1)
      (hSmaller : |values last| < |values first| ∧ p + 1 = found.length ∨
        |values first| ≤ |values last| ∧ p = 0)
  | ofAll (hAlternates : ChangesSign values found) (hSeveral : found.length ≠ count + 1)
      (hLeast : IsLeastAt values found p)
  | ofPrefix (before : List (Fin n)) (x y : Fin n) (after : List (Fin n))
      (hFound : found = before ++ [x, y] ++ after) (hBefore : ChangesSign values (before ++ [x]))
      (hPair : ¬ OppositeSigns (values x) (values y))
      (hLeast : IsLeastAt values (before ++ [x, y]) p)

/-! ## One round -/

section Round

variable {α : Type} [Scalar α] {errors : Vector α n} {values : Fin n → K}

/-- The next position takes the place of the least one when it is nearer to zero. -/
theorem ReadAs.isLeastAt_next (hReads : ReadAs errors values) {met : List (Fin n)} {p : ℕ}
    {i : Fin n} (hEntry : met[p]? = some i) (hLeast : ∀ j ∈ met, |values i| ≤ |values j|)
    (next : Fin n) :
    ∃ q j, (if Scalar.abs (errors.get next) < Scalar.abs (errors.get i)
        then (met.length, errors.get next) else (p, errors.get i)) = (q, errors.get j) ∧
      (met ++ [next])[q]? = some j ∧ ∀ k ∈ met ++ [next], |values j| ≤ |values k| := by
  simp only [hReads.abs_lt_iff, List.forall_mem_append, List.forall_mem_singleton]
  split
  · rename_i hNearer
    refine ⟨met.length, next, rfl, List.getElem?_concat_length, fun k hk => ?_, le_rfl⟩
    exact hNearer.le.trans (hLeast k hk)
  · rename_i hFarther
    have hInside := (List.getElem?_eq_some_iff.mp hEntry).1
    exact ⟨p, i, rfl, (List.getElem?_append_left hInside).trans hEntry, hLeast,
      not_lt.mp hFarther⟩

/-- A scan that has met `before ++ [last]`, all alternating, goes on to the end or up to the first
two that do not alternate, and returns where the least of those it has met is. -/
theorem ReadAs.scanSigns_spec (hReads : ReadAs errors values) (rest before : List (Fin n))
    (last : Fin n) (hNonzero : ∀ j ∈ last :: rest, values j ≠ 0)
    (hBefore : ChangesSign values (before ++ [last])) {p : ℕ} {i : Fin n}
    (hEntry : (before ++ [last])[p]? = some i)
    (hLeast : ∀ j ∈ before ++ [last], |values i| ≤ |values j|) :
    ∃ met after smallest alternating,
      scanSigns (decide (0 < errors.get last)) (p, errors.get i) (before.length + 1)
        (rest.map errors.get) = (smallest, alternating) ∧
      before ++ last :: rest = met ++ after ∧ IsLeastAt values met smallest ∧
      ScansTo values met after alternating := by
  -- each position to come is met before the branch is taken, so it may be the least in all three
  induction rest generalizing before last p i with
  | nil =>
      exact ⟨before ++ [last], [], p, true, rfl, (List.append_nil _).symm, ⟨i, hEntry, hLeast⟩,
        .all hBefore⟩
  | cons next rest ih =>
      obtain ⟨q, j, hSmallest, hNextEntry, hNextLeast⟩ :=
        hReads.isLeastAt_next hEntry hLeast next
      have hFound : before ++ last :: next :: rest = before ++ [last] ++ next :: rest := by simp
      have hPosition : (before ++ [last]).length = before.length + 1 := List.length_append
      have hLast := hNonzero last List.mem_cons_self
      have hLater : ∀ k ∈ next :: rest, values k ≠ 0 := (List.forall_mem_cons.mp hNonzero).2
      have hChain (hOpposite : OppositeSigns (values last) (values next)) :
          ChangesSign values (before ++ [last] ++ [next]) := by
        refine List.IsChain.append hBefore (List.isChain_singleton _) ?_
        simpa using hOpposite
      rw [hPosition] at hSmallest
      simp only [List.map_cons, scanSigns, hSmallest, hReads.pos_iff, hReads.neg_iff,
        decide_eq_true_eq, decide_eq_false_iff_not]
      by_cases hFalls : 0 < values last ∧ values next < 0
      · have hRest := ih (before ++ [last]) next hLater (hChain (.inl hFalls)) hNextEntry hNextLeast
        have hUp : decide (0 < errors.get next) = false :=
          decide_eq_false fun hAbove => hFalls.2.asymm ((hReads.pos_iff next).mp hAbove)
        rw [hUp, hPosition] at hRest
        rwa [if_pos hFalls, hFound]
      · by_cases hRises : ¬ 0 < values last ∧ 0 < values next
        · have hBelow : values last < 0 := lt_of_le_of_ne (not_lt.mp hRises.1) hLast
          have hRest := ih (before ++ [last]) next hLater (hChain (.inr ⟨hBelow, hRises.2⟩))
            hNextEntry hNextLeast
          have hUp : decide (0 < errors.get next) = true :=
            decide_eq_true ((hReads.pos_iff next).mpr hRises.2)
          rw [hUp, hPosition] at hRest
          rwa [if_neg hFalls, if_pos hRises, hFound]
        · rw [if_neg hFalls, if_neg hRises]
          refine ⟨before ++ [last, next], rest, q, false, rfl, by simp, ⟨j, ?_⟩,
            .upToPair hBefore fun hOpposite => hOpposite.elim hFalls fun hPair => ?_⟩
          · simpa using And.intro hNextEntry hNextLeast
          · exact hRises ⟨hPair.1.not_gt, hPair.2⟩

/-- What the rule of a round picks is superfluous. -/
theorem ReadAs.isSuperfluous (hReads : ReadAs errors values) {count : ℕ} (hCount : 1 ≤ count)
    {found : List (Fin n)} (hFound : found ≠ []) (hNonzero : ∀ i ∈ found, values i ≠ 0) :
    IsSuperfluous values count found (superfluous count (found.map errors.get)) := by
  cases found with
  | nil => exact absurd rfl hFound
  | cons first rest =>
      obtain ⟨met, after, smallest, alternating, hScan, hSplit, hLeast, hScans⟩ :=
        hReads.scanSigns_spec rest [] first hNonzero (List.isChain_singleton first)
          (p := 0) (i := first) rfl (by simp)
      rw [List.nil_append] at hSplit
      simp only [List.length_nil, Nat.zero_add] at hScan
      simp only [List.map_cons, superfluous, hScan]
      cases hScans with
      | upToPair hBefore hPair =>
          rw [if_neg (by simp)]
          exact .ofPrefix _ _ _ _ hSplit hBefore hPair hLeast
      | all hAlternates =>
          rw [List.append_nil] at hSplit
          subst hSplit
          by_cases hSingle : (first :: rest).length = count + 1
          · obtain rfl | ⟨middle, last, rfl⟩ := List.eq_nil_or_concat' rest
            · simp at hSingle
              omega
            · have hLast : (errors.get first :: (middle ++ [last]).map errors.get).getLast? =
                  some (errors.get last) := by
                rw [List.map_append, ← List.cons_append]
                exact List.getLast?_concat
              rw [if_pos (by simpa using hSingle), hLast]
              refine .ofEnds first middle last (by simp) hAlternates hSingle ?_
              simp only [hReads.abs_lt_iff]
              split
              · rename_i hNearer
                exact .inl ⟨hNearer, by simp⟩
              · rename_i hFarther
                exact .inr ⟨not_lt.mp hFarther, rfl⟩
          · rw [if_neg (by simpa using hSingle)]
            exact .ofAll hAlternates hSingle hLeast

end Round

/-- Among two positions or more, dropping the least leaves a number at least as large. -/
theorem IsLeastAt.exists_larger {values : Fin n → K} {met : List (Fin n)} {p : ℕ}
    (hLeast : IsLeastAt values met p) (hTwo : 2 ≤ met.length) (after : List (Fin n)) :
    ∃ i, (met ++ after)[p]? = some i ∧
      ∃ j ∈ (met ++ after).eraseIdx p, |values i| ≤ |values j| := by
  obtain ⟨i, hEntry, hLe⟩ := hLeast
  have hInside : p < met.length := (List.getElem?_eq_some_iff.mp hEntry).1
  obtain ⟨q, hq, hOther⟩ : ∃ q, ∃ _ : q < met.length, q ≠ p := by
    rcases Nat.eq_zero_or_pos p with rfl | hPositive
    · exact ⟨1, hTwo, Nat.one_ne_zero⟩
    · exact ⟨0, by omega, hPositive.ne⟩
  refine ⟨i, (List.getElem?_append_left hInside).trans hEntry, met[q], ?_,
    hLe _ (List.getElem_mem hq)⟩
  rw [List.eraseIdx_append_of_lt_length hInside]
  exact List.mem_append_left _
    (List.mem_eraseIdx_iff_getElem?.mpr ⟨q, hOther, List.getElem?_eq_getElem hq⟩)

/-- What a round drops is outdone by something it leaves. -/
theorem IsSuperfluous.exists_larger {values : Fin n → K} {count : ℕ} {found : List (Fin n)} {p : ℕ}
    (hDrops : IsSuperfluous values count found p) (hTwo : 2 ≤ found.length) :
    ∃ i, found[p]? = some i ∧ ∃ j ∈ found.eraseIdx p, |values i| ≤ |values j| := by
  cases hDrops with
  | ofEnds first middle last hFound _ _ hSmaller =>
      subst hFound
      rcases hSmaller with ⟨hLess, hEnd⟩ | ⟨hLe, rfl⟩
      · obtain rfl : p = middle.length + 1 := by simpa using hEnd
        exact ⟨last, by simp, first, by simp, hLess.le⟩
      · exact ⟨first, rfl, last, by simp, hLe⟩
  | ofAll _ _ hLeast =>
      simpa using hLeast.exists_larger hTwo []
  | ofPrefix before x y after hFound _ _ hLeast =>
      rw [hFound]
      exact hLeast.exists_larger (by simp) after

/-- A round keeps a number of at least any magnitude there is. -/
theorem IsSuperfluous.keeps_magnitude {values : Fin n → K} {count : ℕ} {found : List (Fin n)}
    {p : ℕ} (hDrops : IsSuperfluous values count found p) (hTwo : 2 ≤ found.length) {bound : K}
    (hBound : ∃ i ∈ found, bound ≤ |values i|) :
    ∃ i ∈ found.eraseIdx p, bound ≤ |values i| := by
  obtain ⟨i, hMember, hLe⟩ := hBound
  obtain ⟨q, hq⟩ := List.mem_iff_getElem?.mp hMember
  obtain ⟨dropped, hDropped, j, hKept, hLarger⟩ := hDrops.exists_larger hTwo
  by_cases hSame : q = p
  · subst hSame
    obtain rfl : dropped = i := Option.some_injective _ (hDropped.symm.trans hq)
    exact ⟨j, hKept, hLe.trans hLarger⟩
  · exact ⟨i, List.mem_eraseIdx_iff_getElem?.mpr ⟨q, hSame, hq⟩, hLe⟩

/-! ## All rounds -/

section Rounds

variable {α : Type} [Scalar α] {errors : Vector α n} {values : Fin n → K}

theorem prune_sublist (errors : Vector α n) (count excess : ℕ) (found : List (Fin n)) :
    (prune errors count excess found).Sublist found := by
  induction excess generalizing found with
  | zero => exact List.Sublist.refl found
  | succ excess ih => exact (ih _).trans (List.eraseIdx_sublist _ _)

/-- What each round keeps is kept by all of them.  It may depend on how many there are to come. -/
theorem ReadAs.prune_induction (hReads : ReadAs errors values) {count : ℕ} (hCount : 1 ≤ count)
    {P : ℕ → List (Fin n) → Prop}
    (hRound : ∀ {excess found}, found.length = count + (excess + 1) →
      (∀ i ∈ found, values i ≠ 0) →
      IsSuperfluous values count found (superfluous count (found.map errors.get)) →
      P (excess + 1) found →
      P excess (found.eraseIdx (superfluous count (found.map errors.get))))
    {excess : ℕ} {found : List (Fin n)} (hLength : found.length = count + excess)
    (hNonzero : ∀ i ∈ found, values i ≠ 0) (hKept : P excess found) :
    P 0 (prune errors count excess found) := by
  induction excess generalizing found with
  | zero => exact hKept
  | succ excess ih =>
      have hFound : found ≠ [] := List.ne_nil_of_length_pos (by omega)
      have hShorter := length_eraseIdx_superfluous errors count hFound
      rw [prune_succ]
      exact ih (by omega) (fun i hi => hNonzero i (List.mem_of_mem_eraseIdx hi))
        (hRound hLength hNonzero (hReads.isSuperfluous hCount hFound hNonzero) hKept)

/-- The largest local extremum is among the positions that are chosen. -/
theorem ReadAs.exists_largest_selected [IsStrictOrderedRing K] (hReads : ReadAs errors values)
    (hTwo : 2 ≤ n) {count : ℕ} (hCount : 1 ≤ count) {positions : List (Fin n)}
    (hSelect : selectExtrema count errors = .ok positions) :
    ∃ i ∈ positions, ∀ j, IsLocalExtremum values j → |values j| ≤ |values i| := by
  obtain ⟨hEnough, rfl⟩ := selectExtrema_eq_ok_iff.mp hSelect
  have hMember (j : Fin n) : j ∈ (extrema errors).toFinset ↔ IsLocalExtremum values j := by
    rw [List.mem_toFinset, hReads.mem_extrema_iff hTwo]
  obtain ⟨first, hFirst⟩ := List.exists_mem_of_length_pos (hCount.trans hEnough)
  obtain ⟨largest, hLargest, hLe⟩ := (extrema errors).toFinset.exists_max_image
    (fun j => |values j|) ⟨first, List.mem_toFinset.mpr hFirst⟩
  obtain ⟨i, hKept, hBound⟩ := hReads.prune_induction hCount
    (P := fun _ found => ∃ i ∈ found, |values largest| ≤ |values i|)
    (fun hLength _ hDrops => hDrops.keeps_magnitude (by omega))
    (Nat.add_sub_of_le hEnough).symm
    (fun j hj => ((hReads.mem_extrema_iff hTwo j).mp hj).ne_zero)
    ⟨largest, List.mem_toFinset.mp hLargest, le_rfl⟩
  exact ⟨i, hKept, fun j hj => (hLe j ((hMember j).mpr hj)).trans hBound⟩

end Rounds

end Filter
end Pushbroom
