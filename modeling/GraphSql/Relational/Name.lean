import GraphSql.Number.Numeral
import GraphSql.Text.Case

/-!
# Names in relational statements

Qualified column names, output names that differ from those already taken, names of temporary tables,
and the form of a select item, which gives its name only when the expression does not already have it.
-/

namespace GraphSql.Relational

def columnRef (source column : String) : String := source ++ "." ++ column

/-- The candidates for a unique name: the name itself, then `name_2`, `name_3` and so on. -/
def nameCandidate (name : String) : Nat → String
  | 0 => name
  | k + 1 => name ++ "_" ++ Numeral.natural (k + 2)

/-- Whether `name` is none of the given names in small letters, letter case apart. -/
def isFree (lowered : List String) (name : String) : Bool := !lowered.contains (Text.lower name)

/-- The first candidate that differs from all taken names, letter case apart.  The candidates differ
from each other, so one of the first `taken.length + 1` does. -/
def freshName (name : String) (taken : List String) : String :=
  let lowered := taken.map Text.lower
  nameCandidate name
    (((List.range (taken.length + 1)).find? fun k => isFree lowered (nameCandidate name k)).getD 0)

/-- Thirty-two hexadecimal digits for the `k`-th temporary table. -/
def hexSuffix (k : Nat) : String :=
  let ds := Nat.toDigits 16 k
  String.ofList (List.replicate (32 - ds.length) '0' ++ ds)

def tempName (start : String) (suffix : String) : String := start ++ "_" ++ suffix

/-! ## Select items -/

def isColumnStart (c : Char) : Bool := c.isAlpha || c = '_'

def isColumnChar (c : Char) : Bool := c.isAlphanum || c = '_'

/-- The column of a text that is just `source.column` in plain letters; a final line end is passed
over. -/
def referencedColumn? (sql : List Char) : Option (List Char) :=
  match sql.takeWhile (fun c => isColumnChar c || c = '$'),
      sql.dropWhile (fun c => isColumnChar c || c = '$') with
  | a :: _, '.' :: c :: rest =>
    let column := (c :: rest).takeWhile isColumnChar
    let remainder := (c :: rest).dropWhile isColumnChar
    if isColumnStart a && isColumnStart c && (remainder == [] || remainder == ['\n']) then
      some column
    else none
  | _, _ => none

/-- An expression with its output name as it stands in a select list.  A reference to a column of
that name needs no more. -/
def asItem (name sql : String) : String :=
  match referencedColumn? sql.toList with
  | some column => if Text.sameName (String.ofList column) name then sql else sql ++ " AS " ++ name
  | none => sql ++ " AS " ++ name

end GraphSql.Relational
