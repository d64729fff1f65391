import GraphSql.Relational.Script
import GraphSql.Relational.Select
import GraphSql.Schema

/-!
# Statements

The statements that a query becomes: a select statement, a temporary table made from one, a write, or
a block that runs writes for each row of a select statement.  Writes take their values from constants,
from the variables of a block, or from the columns of a temporary table that goes by `rowsName`.
-/

namespace GraphSql.Relational

/-- The name of the rows that a write or a block reads. -/
def rowsName : String := "src"

/-- The variable of a block for a variable of the query. -/
def blockVariable (name : String) : String := "fe_" ++ name

/-- A value in a write. -/
inductive Operand where
  | literal (l : Literal)
  /-- The variable of the block for a variable of the query. -/
  | loopVar (name : String)
  /-- A column of the rows that are read. -/
  | rowColumn (column : String)
  /-- The id of a node of `table` whose `column` has the given value. -/
  | nodeWith (table column : String) (value : Operand)

def Operand.render : Operand → String
  | .literal l => l.render
  | .loopVar name => blockVariable name
  | .rowColumn column => columnRef rowsName column
  | .nodeWith table column value =>
    "(SELECT " ++ Schema.nodeId ++ " FROM " ++ table ++ " WHERE " ++ column ++ " = " ++
      value.render ++ " LIMIT 1)"

/-- Which rows of a table are updated. -/
inductive RowTest where
  | equals (column : String) (value : Operand)
  /-- The id is among the values of a column of a table. -/
  | idAmong (column table : String)

def RowTest.render : RowTest → String
  | .equals column value => column ++ " = " ++ value.render
  | .idAmong column table =>
    Schema.nodeId ++ " IN (SELECT " ++ columnRef rowsName column ++ " FROM " ++ table ++ " " ++
      rowsName ++ ")"

inductive Write where
  | update (table : String) (assignments : List (String × Operand)) (test : RowTest)
  /-- One new edge, or one for each row of the table `rows`. -/
  | insertEdge (values : List (String × Operand)) (rows : Option String)

def Write.render : Write → String
  | .update table assignments test =>
    "UPDATE " ++ table ++ " SET " ++
      Text.join ", " (assignments.map fun (column, value) => column ++ " = " ++ value.render) ++
      " WHERE " ++ test.render ++ ";"
  | .insertEdge values rows =>
    let columns := Text.join ", " (values.map Prod.fst)
    let operands := Text.join ", " (values.map fun (_, value) => value.render)
    "INSERT INTO " ++ Schema.edgesTable ++ " (" ++ columns ++ ") " ++
      match rows with
      | some table => "SELECT " ++ operands ++ " FROM " ++ table ++ " " ++ rowsName ++ ";"
      | none => "VALUES (" ++ operands ++ ");"

/-- A variable of a block: the variable of the query, its type, the column of the rows that it takes,
and whether it takes the elements of that column one by one. -/
structure BlockVariable where
  name : String
  type : ColumnType
  column : String
  unnested : Bool := false

def BlockVariable.selected (v : BlockVariable) : String :=
  let c := columnRef rowsName v.column
  if v.unnested then "unnest(" ++ c ++ ")" else c

/-- Writes that are run for each row of a select statement. -/
structure Block where
  declared : List BlockVariable
  source : Select
  body : List Write

def Block.render (b : Block) : String :=
  loopBlock (b.declared.map fun v => (blockVariable v.name, v.type))
    ("SELECT " ++ Text.join ", " (b.declared.map BlockVariable.selected) ++ " FROM (" ++
      withoutSemicolon b.source.render ++ ") " ++ rowsName)
    (b.body.map Write.render)

inductive Statement where
  | select (s : Select)
  | createTemp (table : String) (s : Select)
  | write (w : Write)
  | block (b : Block)

namespace Statement

def render : Statement → String
  | select s => s.render
  | createTemp table s => tempTableFrom table s.render
  | write w => w.render
  | block b => b.render

/-- Whether a statement answers with rows. -/
def hasRows : Statement → Bool
  | select _ => true
  | _ => false

/-- The statements as one script. -/
def script (statements : List Statement) : String := joinScript (statements.map render)

end Statement

end GraphSql.Relational
