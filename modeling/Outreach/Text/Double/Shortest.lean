import Outreach.Text.Double

/-!
# Outreach.Text.Double.Shortest

The shortest decimal that reads back as a number. All decimals that do lie in an interval around the
number, whose ends are halfway to its neighbours and belong to it if the significand is even. Over
a common power of ten everything is a natural number.

* `Double.interval` — the interval of a positive number.
* `Double.shortest` — the decimal in it with the fewest digits, of several the nearest.
-/

namespace Outreach
namespace Double

/-- The decimals `n · 10^exponent` with `n` from `low` to `high`. -/
structure Interval where
  low : Nat
  mid : Nat
  high : Nat
  /-- Whether the ends belong to it. -/
  closed : Bool
  exponent : Int

namespace Interval

def holds (i : Interval) (n : Nat) : Bool :=
  if i.closed then i.low ≤ n && n ≤ i.high else i.low < n && n < i.high

/-- The coarsest grid `10^j` with a point in the interval, from the one given down, as the point in
multiples of it and `j`. Only the points beside the middle can be the nearest; a tie goes to the
even one. -/
def coarsest (i : Interval) : Nat → Nat × Nat
  | 0 => (i.mid, 0)
  | j + 1 =>
    let grid := Nat.pow 10 (j + 1)
    let n := i.mid / grid
    match i.holds (n * grid), i.holds ((n + 1) * grid) with
    | true, true => (nearest i.mid grid, j + 1)
    | true, false => (n, j + 1)
    | false, true => (n + 1, j + 1)
    | false, false => i.coarsest j

end Interval

/-- The ends lie on quarters of the last place. Below a power of two the neighbour is half as far
away as above. -/
def interval (x : Double) : Interval :=
  let e := x.exponent - 2
  let unit := Nat.pow 2 e.toNat * Nat.pow 5 (-e).toNat
  let below := if x.significand = Nat.pow 2 52 ∧ -1074 < x.exponent then 1 else 2
  { low := (4 * x.significand - below) * unit
    mid := 4 * x.significand * unit
    high := (4 * x.significand + 2) * unit
    closed := x.significand % 2 = 0
    exponent := min e 0 }

/-- The shortest decimal `n · 10^k` that reads back. A number of `b` bits has no more than
`b / 3 + 1` decimal digits. -/
def shortest (x : Double) : Nat × Int :=
  if x.significand = 0 then (0, 0)
  else
    let i := x.interval
    let (n, j) := i.coarsest (i.high.log2 / 3 + 1)
    (n, j + i.exponent)

end Double
end Outreach
