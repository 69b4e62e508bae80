/-!
# Powers of two and ten

The powers that number formats are made of.
-/

namespace Refinement

/-- Two to the `n`. -/
def twoTo (n : Nat) : Nat := Nat.pow 2 n

/-- Ten to the `n`. -/
def tenTo (n : Nat) : Nat := Nat.pow 10 n

theorem twoTo_pos (n : Nat) : 0 < twoTo n := Nat.pow_pos (by decide)

end Refinement
