/-!
# Ranges of code points

A character class of the Unicode standard is kept as a list of closed ranges of code points, and
`Ranges.covers` says whether a character lies in one of them.  Long lists are written as the lengths of
the ranges and of the gaps between them.
-/

namespace GraphSql.Text

/-- Closed ranges of code points, each written as its first and last member. -/
abbrev Ranges := List (Nat × Nat)

/-- The ranges from `start` on with the given lengths: that of a gap, that of the range behind it, that
of the next gap, and so on. -/
def Ranges.ofRuns (start : Nat) : List Nat → Ranges
  | gap :: length :: rest =>
    (start + gap, start + gap + length - 1) :: ofRuns (start + gap + length) rest
  | _ => []

/-- Whether some range holds the code point of `c`. -/
def Ranges.covers (rs : Ranges) (c : Char) : Bool :=
  rs.any fun r => decide (r.1 ≤ c.toNat) && decide (c.toNat ≤ r.2)

end GraphSql.Text
