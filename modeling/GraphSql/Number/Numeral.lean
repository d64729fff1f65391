import GraphSql.Text.Blank
import GraphSql.Text.Digit

/-!
# Integers in decimal notation

Writing is plain: an optional minus sign and ASCII digits.  Reading is generous in its spelling, with
blanks around the numeral, either sign, digits of any script and single underscores between digits,
and strict in its length: a numeral of more than `digitLimit` digits is not read at all.
-/

namespace GraphSql.Numeral

/-- The most digits, leading zeros included, that a numeral may have to be read. -/
def digitLimit : Nat := 4300

def natural (n : Nat) : String := String.ofList (Nat.toDigits 10 n)

def integer : Int → String
  | .ofNat n => natural n
  | .negSucc n => "-" ++ natural (n + 1)

/-- The digits of a row of digits in which single underscores may stand between digits. -/
def groupedDigits? : List Char → Option (List Char)
  | [] => none
  | [c] => if Text.isDigit c then some [c] else none
  | c :: '_' :: cs => if Text.isDigit c then (groupedDigits? cs).map (c :: ·) else none
  | c :: d :: cs => if Text.isDigit c then (groupedDigits? (d :: cs)).map (c :: ·) else none

/-- An optional sign: whether it is a minus, and what follows it. -/
def splitSign : List Char → Bool × List Char
  | '-' :: cs => (true, cs)
  | '+' :: cs => (false, cs)
  | cs => (false, cs)

/-- The integer that a text spells. -/
def read? (s : String) : Option Int :=
  let (negative, rest) := splitSign (Text.trimChars s.toList)
  match groupedDigits? rest with
  | none => none
  | some ds =>
    if ds.length ≤ digitLimit then
      let n : Int := Text.digitsValue ds
      some (if negative then -n else n)
    else none

end GraphSql.Numeral
