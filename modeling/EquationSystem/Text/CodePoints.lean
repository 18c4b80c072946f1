/-!
# Sets of code points

A set of code points is listed by the points at which membership changes, in increasing order: the
first point that belongs to it, then the first after that which does not, and so on.
-/

namespace EquationSystem

/-- The points at which membership in a set of code points changes. -/
abbrev CodePoints : Type := List Nat

/-- Whether a code point belongs to the set: an odd number of changes lie at or before it. -/
def CodePoints.contains (changes : CodePoints) (point : Nat) : Bool :=
  (changes.takeWhile (· ≤ point)).length % 2 == 1

end EquationSystem
