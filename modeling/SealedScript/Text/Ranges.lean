/-
SealedScript/Text/Ranges.lean

Membership in a table of closed ranges of code points, the form in which the
character classes of this library are kept.
-/

namespace SealedScript

/-- Whether `n` lies in one of the closed ranges. -/
def inRanges (ranges : List (Nat × Nat)) (n : Nat) : Bool :=
  ranges.any fun r => r.1 ≤ n && n ≤ r.2

end SealedScript
