import Pushbroom.Error
import Pushbroom.Scalar.Basic

namespace Pushbroom
namespace Filter

/-!
# Alternating extrema of an error curve

From the errors of a response on the whole grid, the positions of `count` extrema are
chosen for the next exchange.  All local extrema are collected first.  Those in excess are
dropped one at a time: the smallest of the extrema up to the first two that do not
alternate, or, when all alternate and a single one is in excess, the smaller of the two
ends.
-/

variable {α : Type} [Scalar α]

/-- Whether an error is a local extremum away from zero, given its neighbours on the grid.
Of equal neighbours the last one counts; at the ends of the grid the error has to exceed
its one neighbour. -/
def isExtremum (left? right? : Option α) (error : α) : Bool :=
  match left?, right? with
  | none, none => false
  | none, some next =>
    decide (0 < error ∧ next < error) || decide (error < 0 ∧ error < next)
  | some last, none =>
    decide (0 < error ∧ last < error) || decide (error < 0 ∧ error < last)
  | some last, some next =>
    decide (last ≤ error ∧ next < error ∧ 0 < error) ||
      decide (error ≤ last ∧ error < next ∧ error < 0)

def leftNeighbour? {n : Nat} (errors : Vector α n) (i : Fin n) : Option α :=
  if i.val = 0 then none else errors[i.val - 1]?

/-- The positions of all local extrema, in increasing order. -/
def extrema {n : Nat} (errors : Vector α n) : List (Fin n) :=
  (List.finRange n).filter fun i =>
    isExtremum (leftNeighbour? errors i) errors[i.val + 1]? errors[i]

/-- Goes along the errors after the first, as long as their signs alternate, and keeps the
position and value of the smallest one met.  `up` tells whether the last error was
positive and `position` is that of the next one.  Returns the smallest position and
whether all the signs alternate. -/
def scanSigns (up : Bool) (smallest : Nat × α) (position : Nat) : List α → Nat × Bool
  | [] => (smallest.1, true)
  | error :: rest =>
    let smallest :=
      if Scalar.abs error < Scalar.abs smallest.2 then (position, error) else smallest
    if up = true ∧ error < 0 then scanSigns false smallest (position + 1) rest
    else if up = false ∧ 0 < error then scanSigns true smallest (position + 1) rest
    else (smallest.1, false)

/-- The position, in a list of errors at extrema, of the one to drop when `count` shall
remain. -/
def superfluous (count : Nat) (errors : List α) : Nat :=
  match errors with
  | [] => 0
  | first :: rest =>
    let (smallest, alternating) := scanSigns (decide (0 < first)) (0, first) 1 rest
    if alternating = true ∧ errors.length = count + 1 then
      match errors.getLast? with
      | some last => if Scalar.abs last < Scalar.abs first then errors.length - 1 else 0
      | none => 0
    else smallest

/-- Drops `excess` superfluous extrema, one after the other. -/
def prune {n : Nat} (errors : Vector α n) (count : Nat) :
    Nat → List (Fin n) → List (Fin n)
  | 0, found => found
  | excess + 1, found =>
    let values := found.map fun i => errors[i]
    prune errors count excess (found.eraseIdx (superfluous count values))

/-- The positions of `count` extrema of an error curve.  Fails when it has fewer. -/
def selectExtrema {n : Nat} (count : Nat) (errors : Vector α n) :
    Except (Error α) (List (Fin n)) :=
  let found := extrema errors
  if found.length < count then .error .filterDesign
  else .ok (prune errors count (found.length - count) found)

/-- The smallest and the largest magnitude of the errors at some positions. -/
def magnitudeRange {n : Nat} (errors : Vector α n) (positions : List (Fin n)) : α × α :=
  positions.foldl
    (fun range i =>
      let magnitude := Scalar.abs errors[i]
      (Scalar.minNum range.1 magnitude, Scalar.maxNum range.2 magnitude))
    (1.7976931348623157e308, 0)

/-- An exchange has converged when the errors at the extrema are level. -/
def levelled {n : Nat} (errors : Vector α n) (positions : List (Fin n)) : Bool :=
  let (least, greatest) := magnitudeRange errors positions
  greatest == 0 || decide ((greatest - least) / greatest < 1e-4)

end Filter
end Pushbroom
