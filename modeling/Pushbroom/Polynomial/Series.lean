import Pushbroom.Scalar.Basic

namespace Pushbroom
namespace Series

/-!
# Power and Legendre series

A series is the list of its coefficients, lowest degree first; the empty list is zero.
-/

section Power

variable {α : Type} [Zero α] [Add α] [Mul α]

/-- The power series `c₀ + c₁ x + c₂ x² + …`, nested from the highest degree down. -/
def power (coefficients : List α) (x : α) : α :=
  coefficients.foldr (fun c value => value * x + c) 0

end Power

variable {α : Type} [Scalar α]

/-- The coefficients of a series up to and including the degree `order`.  Their number is one more
than the degree and kept as a size, so that nothing is left of a series up to the greatest size.
Where sizes do not wrap around but end the computation, that order ends it. -/
def upToOrder (coefficients : List α) (order : Nat) : List α :=
  coefficients.take (wrapSize (order + 1))

/-- The Legendre polynomial of degree `k`, from those of the two degrees below it. -/
def bonnet (k : Nat) (x previous current : α) : α :=
  ((2.0 * (k : α) - 1) * x * current - ((k : α) - 1) * previous) / (k : α)

/-- Adds the terms of degree `k` and above to `total`, given the Legendre polynomials of
degree `k - 2` and `k - 1`. -/
def legendreFrom (x : α) (k : Nat) (previous current total : α) : List α → α
  | [] => total
  | c :: rest =>
    let next := bonnet k x previous current
    legendreFrom x (k + 1) current next (total + c * next) rest

/-- The Legendre series `c₀ P₀(x) + c₁ P₁(x) + c₂ P₂(x) + …`. -/
def legendre (coefficients : List α) (x : α) : α :=
  match coefficients with
  | [] => 0
  | [c₀] => 0 + c₀
  | c₀ :: c₁ :: rest => legendreFrom x 2 1 x (0 + c₀ + c₁ * x) rest

end Series
end Pushbroom
