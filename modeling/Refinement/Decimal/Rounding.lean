/-!
# Rounding a quotient

`roundHalfEven num den` is the integer nearest to `num / den`, the even one of two that are
equally near.
-/

namespace Refinement

/-- The integer nearest to `num / den`; a half goes to the even neighbour. -/
def roundHalfEven (num den : Nat) : Nat :=
  let q := num / den
  match compare (2 * (num % den)) den with
  | .lt => q
  | .gt => q + 1
  | .eq => if q % 2 = 0 then q else q + 1

end Refinement
