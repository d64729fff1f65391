import GraphSql.Number.Binary64
import GraphSql.Number.Numeral

/-!
# Shortest decimal text of a double precision number

A finite number is written with the fewest significant digits that read back as the same number, and
among those with the digits nearest to it.  For each number of digits the two neighbours on that
decimal grid are tried; seventeen digits always suffice.  The text is positional for exponents from
`-4` to `15`, always with a point, and has a power of ten otherwise.
-/

namespace GraphSql.Binary64

/-- Numerator and denominator of `n / d` divided by `10^u`. -/
def tenShift (n d : Nat) (u : Int) : Nat × Nat :=
  if 0 ≤ u then (n, d * Nat.pow 10 u.toNat) else (n * Nat.pow 10 (-u).toNat, d)

/-- The power of ten of the leading digit of `n / d`, for positive `n` and `d`. -/
def leadingPower (n d : Nat) : Int :=
  let k : Int := ((Nat.toDigits 10 n).length : Int) - (Nat.toDigits 10 d).length
  let (a, b) := tenShift n d k
  if b ≤ a then k else k - 1

/-- The multiple of `10^u` next to `n / d` that reads back as `x`, if one does.  When both do, the
nearer one is taken, and the even one when they are equally near. -/
def gridPoint? (x : Binary64) (n d : Nat) (u : Int) : Option Nat :=
  let (a, b) := tenShift n d u
  let below := a / b
  let readsBack := fun c => ofDecimal false c u = x
  if readsBack below then
    if readsBack (below + 1) then some (divNearest a b) else some below
  else if readsBack (below + 1) then some (below + 1)
  else none

/-- The digits, as a number, and the power of ten of the last one: the coarsest grid, from `used + 1`
digits on, that holds a point that reads back. -/
def shortestFrom (x : Binary64) (n d : Nat) (lead : Int) : Nat → Nat → Nat × Int
  | _, 0 => (0, 0)
  | used, tries + 1 =>
    let u := lead - used
    match gridPoint? x n d u with
    | some c => (c, u)
    | none => shortestFrom x n d lead (used + 1) tries

/-- Removes trailing zeros from a row of digits. -/
def dropZeros (ds : List Char) : List Char := Text.dropEndWhile (· == '0') ds

/-- The significant digits of a positive number and the power of ten of the first of them. -/
def shortestDigits (m : Nat) (e : Int) : List Char × Int :=
  let (n, d) := ratio m e
  let (c, u) := shortestFrom (.finite false m e) n d (leadingPower n d) 0 17
  let ds := Nat.toDigits 10 c
  (dropZeros ds, u + ds.length - 1)

/-- Digits with a point: `lead` is the power of ten of the first digit. -/
def positional (ds : List Char) (lead : Int) : List Char :=
  if lead < 0 then
    '0' :: '.' :: List.replicate (-lead - 1).toNat '0' ++ ds
  else
    let k := lead.toNat + 1
    if ds.length ≤ k then ds ++ List.replicate (k - ds.length) '0' ++ ['.', '0']
    else ds.take k ++ '.' :: ds.drop k

/-- Digits with a power of ten, which has a sign and at least two digits. -/
def scientific (ds : List Char) (lead : Int) : List Char :=
  let power := Nat.toDigits 10 lead.natAbs
  let mantissa := match ds with
    | [] => []
    | [c] => [c]
    | c :: rest => c :: '.' :: rest
  mantissa ++ ['e', if lead < 0 then '-' else '+'] ++
    List.replicate (2 - power.length) '0' ++ power

/-- The text of a number. -/
def render : Binary64 → String
  | nan => "nan"
  | infinite negative => if negative then "-inf" else "inf"
  | finite negative m e =>
    let sign := if negative then "-" else ""
    if m = 0 then sign ++ "0.0"
    else
      let (ds, lead) := shortestDigits m e
      let text := if -4 ≤ lead ∧ lead < 16 then positional ds lead else scientific ds lead
      sign ++ String.ofList text

end GraphSql.Binary64
