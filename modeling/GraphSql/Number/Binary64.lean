/-!
# Double precision numbers

A number of the 64-bit binary format is kept as its significand and exponent, so that reading and
printing it are exact arithmetic on natural numbers.  `ofRatio` rounds a quotient to the nearest such
number, a half going to the even significand.
-/

namespace GraphSql

/-- A double precision number.  `finite negative m e` is `m · 2^e` with the given sign; the numbers
built here have `-1074 ≤ e ≤ 971` and `m < 2^53`, and `2^52 ≤ m` unless `e = -1074`. -/
inductive Binary64 where
  | nan
  | infinite (negative : Bool)
  | finite (negative : Bool) (significand : Nat) (exponent : Int)
  deriving DecidableEq

namespace Binary64

/-- The exponent of the smallest positive number. -/
def leastExponent : Int := -1074

/-- The exponent of the largest finite number. -/
def greatestExponent : Int := 971

/-- The quotient of two natural numbers to the nearest one, a half going to the even neighbour. -/
def divNearest (n d : Nat) : Nat :=
  let q := n / d
  let r := n % d
  if 2 * r < d then q else if d < 2 * r then q + 1 else q + q % 2

/-- Numerator and denominator of `n / d` divided by `2^e`. -/
def shift (n d : Nat) (e : Int) : Nat × Nat :=
  if 0 ≤ e then (n, d * Nat.pow 2 e.toNat) else (n * Nat.pow 2 (-e).toNat, d)

/-- The exponent at which `n / d` has a significand of 53 bits, or the least exponent when that is
greater.  The quotient lies between `2^(k-1)` and `2^(k+1)` for `k` the difference of the lengths, so
one comparison settles it. -/
def exponentFor (n d : Nat) : Int :=
  let e : Int := (n.log2 : Int) - d.log2 - 52
  let (a, b) := shift n d e
  max (if a < b * Nat.pow 2 52 then e - 1 else e) leastExponent

/-- The number nearest to `n / d`, infinite when that lies beyond the greatest finite one. -/
def ofRatio (negative : Bool) (n d : Nat) : Binary64 :=
  if n = 0 then .finite negative 0 leastExponent
  else
    let e := exponentFor n d
    let (a, b) := shift n d e
    let m := divNearest a b
    let (m, e) := if m = Nat.pow 2 53 then (Nat.pow 2 52, e + 1) else (m, e)
    if greatestExponent < e then .infinite negative else .finite negative m e

/-- The number nearest to `digits · 10^exponent`.  Exponents far outside the range of the format are
settled without computing the power. -/
def ofDecimal (negative : Bool) (digits : Nat) (exponent : Int) : Binary64 :=
  let magnitude : Int := (Nat.toDigits 10 digits).length + exponent
  if digits = 0 ∨ magnitude < -330 then .finite negative 0 leastExponent
  else if 310 < magnitude then .infinite negative
  else if 0 ≤ exponent then ofRatio negative (digits * Nat.pow 10 exponent.toNat) 1
  else ofRatio negative digits (Nat.pow 10 (-exponent).toNat)

/-- Numerator and denominator of the absolute value of a finite number. -/
def ratio (m : Nat) (e : Int) : Nat × Nat :=
  if 0 ≤ e then (m * Nat.pow 2 e.toNat, 1) else (m, Nat.pow 2 (-e).toNat)

def neg : Binary64 → Binary64
  | nan => nan
  | infinite negative => infinite !negative
  | finite negative m e => finite (!negative) m e

/-- The integer that a number is, if it is one. -/
def toInt? : Binary64 → Option Int
  | nan => none
  | infinite _ => none
  | finite negative m e =>
    let (a, b) := ratio m e
    if a % b = 0 then
      let n : Int := (a / b : Nat)
      some (if negative then -n else n)
    else none

end Binary64

end GraphSql
