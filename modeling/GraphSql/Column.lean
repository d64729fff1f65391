import GraphSql.Text.Blank
import GraphSql.Text.Case
import GraphSql.Text.Display

/-!
# Columns

Typed columns of a relational table, their definitions in text form, and the two operations on lists
of columns: looking one up without regard to letter case, and merging lists so that the first
declaration of a name wins.
-/

namespace GraphSql

inductive ColumnType where
  | int
  | bigint
  | text
  | textArray
  deriving DecidableEq

structure Column where
  name : String
  type : ColumnType
  deriving DecidableEq

/-- Why a column definition cannot be read. -/
inductive DefinitionError where
  | unknownType (text : String)
  | malformed (part : String)
  deriving DecidableEq

def DefinitionError.message : DefinitionError → String
  | .unknownType text => "Unknown column type: " ++ text
  | .malformed part => "Invalid column definition: " ++ Text.display part

namespace ColumnType

/-- The spelling of a type in a definition. -/
def sql : ColumnType → String
  | int => "INT"
  | bigint => "BIGINT"
  | text => "TEXT"
  | textArray => "TEXT[]"

/-- The type that a spelling in capitals with single blanks names. -/
def ofSpelling? (s : String) : Option ColumnType :=
  [("INTEGER", int), ("INT4", int), ("INT8", bigint), ("VARCHAR", text), ("VARCHAR[]", textArray),
   ("INT", int), ("BIGINT", bigint), ("TEXT", text), ("TEXT[]", textArray)].lookup s

/-- The type that a text names, in any letter case and with any blanks around it. -/
def ofText (s : String) : Except DefinitionError ColumnType :=
  match ofSpelling? (Text.join " " (Text.words (Text.upper s))) with
  | some t => .ok t
  | none => .error (.unknownType s)

def isNumeric : ColumnType → Bool
  | int => true
  | bigint => true
  | _ => false

end ColumnType

namespace Column

/-- A column as it stands in a table definition. -/
def definition (c : Column) : String := c.name ++ " " ++ c.type.sql

/-- One part of a definition list: a name, blanks, and a type. -/
def ofDefinition (part : String) : Except DefinitionError Column :=
  match Text.splitFirstWord part with
  | none => .error (.malformed part)
  | some (name, type) => (ColumnType.ofText type).map (Column.mk name)

/-- The columns of a list such as `node_id INT, tags TEXT[]`.  Empty parts are passed over. -/
def ofDefinitions (s : String) : Except DefinitionError (List Column) :=
  (((Text.splitAt ',' s).map Text.trim).filter (· ≠ "")).mapM ofDefinition

/-- The first column with the given name, letter case apart. -/
def find? (columns : List Column) (name : String) : Option Column :=
  columns.find? fun c => Text.sameName c.name name

/-- The columns with each name once, in order of first appearance and with the first type. -/
def distinct : List Column → List Column
  | [] => []
  | c :: cs => c :: (distinct cs).filter fun d => !Text.sameName d.name c.name

/-- The first-wins union of several lists of columns. -/
def merge (groups : List (List Column)) : List Column := distinct groups.flatten

end Column

end GraphSql
