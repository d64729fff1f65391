import GraphSql.Number.Binary64
import GraphSql.Number.Numeral
import GraphSql.Text.Case

/-!
# Double precision numbers in decimal notation

A decimal is a row of digits with an optional point and an optional power of ten, or one of the
words for infinity and for the undefined number.  Blanks may stand around it, a sign before it and
single underscores between its digits.
-/

namespace GraphSql.Binary64

/-- The parts of a text before and after the first character that satisfies `p`. -/
def breakAt (p : Char → Bool) (cs : List Char) : List Char × Option (List Char) :=
  match cs.dropWhile fun c => !p c with
  | [] => (cs, none)
  | _ :: rest => (cs.takeWhile fun c => !p c, some rest)

/-- Digits before or behind a point; they may be absent. -/
def optionalDigits? (cs : List Char) : Option (List Char) :=
  if cs.isEmpty then some [] else Numeral.groupedDigits? cs

/-- The power of ten behind the letter `e`. -/
def power? : Option (List Char) → Option Int
  | none => some 0
  | some cs =>
    let (negative, rest) := Numeral.splitSign cs
    (Numeral.groupedDigits? rest).map fun ds =>
      let n : Int := Text.digitsValue ds
      if negative then -n else n

/-- A decimal without sign. -/
def readUnsigned? (negative : Bool) (cs : List Char) : Option Binary64 :=
  let (mantissa, power) := breakAt (fun c => c = 'e' || c = 'E') cs
  let (whole, fraction) := breakAt (fun c => c = '.') mantissa
  match optionalDigits? whole, optionalDigits? (fraction.getD []), power? power with
  | some ws, some fs, some p =>
    if ws.isEmpty && fs.isEmpty then none
    else some (ofDecimal negative (Text.digitsValue (ws ++ fs)) (p - fs.length))
  | _, _, _ => none

/-- The number that a text spells. -/
def read? (s : String) : Option Binary64 :=
  let (negative, rest) := Numeral.splitSign (Text.trimChars s.toList)
  match Text.lower (String.ofList rest) with
  | "inf" | "infinity" => some (.infinite negative)
  | "nan" => some .nan
  | _ => readUnsigned? negative rest

/-- The number with the given digits before and behind the point. -/
def ofDigits (whole fraction : List Char) : Binary64 :=
  ofDecimal false (Text.digitsValue (whole ++ fraction)) (-(fraction.length : Int))

end GraphSql.Binary64
