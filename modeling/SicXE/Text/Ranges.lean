/-! # Sets of code points

A set of code points is a list of closed intervals, each pair holding the least and the
greatest member of one interval. The intervals are listed in increasing order, so a look-up
stops at the first interval that starts beyond the code point.
-/
namespace SicXE.Text

abbrev Ranges := List (Nat × Nat)

namespace Ranges

/-- Membership in a sorted list of intervals. -/
def contains : Ranges → Nat → Bool
  | [], _ => false
  | (lo,hi) :: rest, n =>
    if n < lo then false else if n ≤ hi then true else contains rest n

@[simp] theorem contains_nil (n : Nat) : contains [] n = false := rfl

theorem contains_cons (lo hi : Nat) (rest : Ranges) (n : Nat) :
    contains ((lo,hi) :: rest) n =
      if n < lo then false else if n ≤ hi then true else contains rest n := rfl

end Ranges
end SicXE.Text
