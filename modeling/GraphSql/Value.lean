import GraphSql.Number.Decimal
import GraphSql.Number.Shortest
import GraphSql.Text.Display

/-!
# Values

The values that literals denote and that callers hand over: null, truth values, integers, double
precision numbers, texts, lists, fixed rows and records.  A value is read as an integer or as a text
when a column asks for one; `toInteger?` and `toText?` say when that is possible.
-/

namespace GraphSql

inductive Value where
  | null
  | boolean (b : Bool)
  | integer (n : Int)
  | number (x : Binary64)
  | text (s : String)
  | list (elements : List Value)
  | row (elements : List Value)
  | record (entries : List (String × Value))
  deriving Inhabited

namespace Value

/-- The integer that a value can be read as: an integer, a number without fraction, or a text that
spells an integer. -/
def toInteger? : Value → Option Int
  | .integer n => some n
  | .number x => x.toInt?
  | .text s => Numeral.read? s
  | _ => none

/-- The text that a value can be read as; lists, rows and records have none. -/
def toText? : Value → Option String
  | .boolean b => some (if b then "true" else "false")
  | .integer n => some (Numeral.integer n)
  | .number x => some x.render
  | .text s => some s
  | _ => none

/-- The elements of a list or row. -/
def elements? : Value → Option (List Value)
  | .list vs => some vs
  | .row vs => some vs
  | _ => none

/-- Whether a value counts as the number one. -/
def isOne : Value → Bool
  | .boolean b => b
  | .integer n => n == 1
  | .number x => x.toInt? == some 1
  | _ => false

mutual

/-- A value as it is shown inside a record. -/
def inspect : Value → String
  | .null => "None"
  | .boolean b => if b then "True" else "False"
  | .integer n => Numeral.integer n
  | .number x => x.render
  | .text s => Text.display s
  | .list vs => "[" ++ Text.join ", " (inspectAll vs) ++ "]"
  | .row [v] => "(" ++ inspect v ++ ",)"
  | .row vs => "(" ++ Text.join ", " (inspectAll vs) ++ ")"
  | .record es => "\x7b" ++ Text.join ", " (inspectEntries es) ++ "\x7d"

def inspectAll : List Value → List String
  | [] => []
  | v :: vs => inspect v :: inspectAll vs

def inspectEntries : List (String × Value) → List String
  | [] => []
  | (k, v) :: es => (Text.display k ++ ": " ++ inspect v) :: inspectEntries es

end

end Value

end GraphSql
