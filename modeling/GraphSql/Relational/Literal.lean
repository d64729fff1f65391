import GraphSql.Column
import GraphSql.Value

/-!
# Constants in relational statements

A value becomes a constant either as it is or as a column of some type wants it.  In the second case
a value that cannot be read as that type becomes `NULL`.  Texts stand between single quotes, with
every quote inside them written twice.
-/

namespace GraphSql.Relational

def quoteChar (c : Char) : List Char := if c = '\'' then ['\'', '\''] else [c]

/-- A text between single quotes, the quotes inside it doubled. -/
def quote (s : String) : String :=
  "'" ++ String.ofList (s.toList.flatMap quoteChar) ++ "'"

inductive Literal where
  | null
  | boolean (b : Bool)
  | integer (n : Int)
  | number (x : Binary64)
  | text (s : String)
  | array (elements : List Literal)
  /-- An array for a column of texts; absent elements are null. -/
  | textArray (elements : List (Option String))
  deriving Inhabited

namespace Literal

def renderElement : Option String → String
  | none => "NULL"
  | some s => quote s

mutual

def render : Literal → String
  | .null => "NULL"
  | .boolean b => if b then "TRUE" else "FALSE"
  | .integer n => Numeral.integer n
  | .number x => x.render
  | .text s => quote s
  | .array ls => "ARRAY[" ++ Text.join ", " (renderAll ls) ++ "]"
  | .textArray [] => "ARRAY[]::TEXT[]"
  | .textArray (e :: es) => "ARRAY[" ++ Text.join "," ((e :: es).map renderElement) ++ "]"

def renderAll : List Literal → List String
  | [] => []
  | l :: ls => render l :: renderAll ls

end

mutual

/-- A value as it is. -/
def ofValue : Value → Literal
  | .null => .null
  | .boolean b => .boolean b
  | .integer n => .integer n
  | .number x => .number x
  | .text s => .text s
  | .list vs => .array (ofValues vs)
  | .row vs => .array (ofValues vs)
  | .record es => .text (Value.record es).inspect

def ofValues : List Value → List Literal
  | [] => []
  | v :: vs => ofValue v :: ofValues vs

end

/-- An element of an array of texts. -/
def element? : Value → Option (Option String)
  | .null => some none
  | v => v.toText?.map some

/-- A value as a column of the given type wants it. -/
def ofValueAs (type : ColumnType) (v : Value) : Literal :=
  match v, type with
  | .null, _ => .null
  | v, .int | v, .bigint => (v.toInteger?.map integer).getD .null
  | v, .text => (v.toText?.map text).getD .null
  | v, .textArray => ((v.elements?.bind (·.mapM element?)).map textArray).getD .null

/-- A value as a column of the given type wants it, or as it is when the type is not known. -/
def ofValueFor (type : Option ColumnType) (v : Value) : Literal :=
  match type with
  | some t => ofValueAs t v
  | none => ofValue v

end Literal

end GraphSql.Relational
