/-
SealedScript/Number/Shortest.lean

The decimal with the fewest places that reads back as a given number.  The
numbers that round to m · 2^q form an interval around it: half a unit to either
side, but only a quarter below a power of two, where the units below are half as
large; the ends belong to it iff m is even.  For one, two, three, … places the
two neighbours of the number on that decimal grid are tested, and the first grid
with a hit wins; of two hits the nearer one, and of two equally near the greater.

Only numbers that are not whole come here, so q is negative and q = -down.  No
whole number lies in the interval of such a number, which is why the search may
start at one place.
-/
import SealedScript.Number.Binary64

namespace SealedScript

/-- A decimal: `digits` with the last `places` of them behind the point. -/
structure Decimal where
  digits : Nat
  places : Nat
  deriving DecidableEq, Repr

namespace Shortest

/-- The lower end of the interval, in units of a quarter of 2^(-down). -/
def lower (mantissa down : Nat) : Nat :=
  if mantissa == Binary64.normalBit && down < 1074 then 4 * mantissa - 1 else 4 * mantissa - 2

/-- The upper end of the interval, in units of a quarter of 2^(-down). -/
def upper (mantissa : Nat) : Nat := 4 * mantissa + 2

/-- Whether `digits / 10 ^ places` reads back as `mantissa / 2 ^ down`. -/
def readsBack (mantissa down places digits : Nat) : Bool :=
  let point := digits * Nat.pow 2 (down + 2)
  let low := lower mantissa down * Nat.pow 10 places
  let high := upper mantissa * Nat.pow 10 places
  if mantissa % 2 == 0 then low ≤ point && point ≤ high else low < point && point < high

/-- The best decimal with this number of places, if one reads back. -/
def atPlaces? (mantissa down places : Nat) : Option Nat :=
  let scaled := mantissa * Nat.pow 10 places
  let below := scaled / Nat.pow 2 down
  let above := below + 1
  match readsBack mantissa down places below, readsBack mantissa down places above with
  | true, true => some (if 2 * (scaled % Nat.pow 2 down) < Nat.pow 2 down then below else above)
  | true, false => some below
  | false, true => some above
  | false, false => none

/-- Tries `places`, `places + 1`, … as often as the first argument says. -/
def search (mantissa down : Nat) : Nat → Nat → Decimal
  | 0, places => ⟨mantissa * Nat.pow 10 places / Nat.pow 2 down, places⟩
  | tries + 1, places =>
    match atPlaces? mantissa down places with
    | some digits => ⟨digits, places⟩
    | none => search mantissa down tries (places + 1)

/-- The shortest decimal for `mantissa / 2 ^ down`.  With `down` places the
decimal is exact, so the search ends there at the latest. -/
def decimal (mantissa down : Nat) : Decimal := search mantissa down down 1

end Shortest

end SealedScript
