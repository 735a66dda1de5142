/-!
# Outreach.Text.Double

Floating-point numbers of double precision, without a sign: `significand · 2^exponent`, with a
significand below `2^53` and an exponent of at least -1074. An operation rounds its exact result
to the nearest such number, a tie to the even significand, and has no result from `2^1024` on.

* `Double.round?` — the number nearest to a quotient.
* `Double.ofDecimal?` — a decimal scaled by a power of ten in this arithmetic. It rounds up to
  three times, so that the nearest number to the decimal may be its neighbour.
-/

namespace Outreach

structure Double where
  significand : Nat
  exponent : Int
deriving DecidableEq, Repr

namespace Double

def zero : Double := ⟨0, 0⟩

/-- The quotient to the nearest whole number, a tie to the even one. -/
def nearest (n d : Nat) : Nat :=
  if 2 * (n % d) < d ∨ (2 * (n % d) = d ∧ n / d % 2 = 0) then n / d else n / d + 1

/-- The exponent of a positive quotient: the one with which its significand has 53 bits, but none
below the least. -/
def exponentOf (n d : Nat) : Int :=
  let e : Int := (n.log2 : Int) - (d.log2 : Int) - 52
  let e := if n * Nat.pow 2 (-e).toNat < Nat.pow 2 52 * d * Nat.pow 2 e.toNat then e - 1 else e
  max e (-1074)

/-- The number nearest to `n / d`. -/
def round? (n d : Nat) : Option Double :=
  if n = 0 then some zero
  else
    let e := exponentOf n d
    let m := nearest (n * Nat.pow 2 (-e).toNat) (d * Nat.pow 2 e.toNat)
    let x : Double := if m = Nat.pow 2 53 then ⟨Nat.pow 2 52, e + 1⟩ else ⟨m, e⟩
    if x.significand * Nat.pow 2 x.exponent.toNat < Nat.pow 2 1024 then some x else none

/-- The number nearest to `n / d · 2^e`. -/
def roundAt? (n d : Nat) (e : Int) : Option Double :=
  round? (n * Nat.pow 2 e.toNat) (d * Nat.pow 2 (-e).toNat)

def mul? (x y : Double) : Option Double :=
  roundAt? (x.significand * y.significand) 1 (x.exponent + y.exponent)

def div? (x y : Double) : Option Double :=
  roundAt? x.significand y.significand (x.exponent - y.exponent)

def powerOfTen? (k : Nat) : Option Double :=
  round? (Nat.pow 10 k) 1

/-- The largest power of ten among the numbers. -/
def maxPower : Nat := 308

/-- `x · 10^e`. -/
def scale? (x : Double) (e : Int) : Option Double :=
  if e.natAbs ≤ maxPower then do
    let p ← powerOfTen? e.natAbs
    if 0 ≤ e then x.mul? p else x.div? p
  else if x.significand = 0 then some zero
  else if 0 ≤ e then none
  else do
    let p ← powerOfTen? maxPower
    let y ← x.div? p
    if y.significand = 0 then some zero else y.scale? (e + maxPower)
termination_by e.natAbs
decreasing_by simp only [maxPower] at *; omega

/-- `n · 10^e`. -/
def ofDecimal? (n : Nat) (e : Int) : Option Double := do
  let x ← round? n 1
  x.scale? e

end Double
end Outreach
