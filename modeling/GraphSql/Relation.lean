import GraphSql.Function
import GraphSql.Relational.Select
import GraphSql.Schema

/-!
# Output columns and derived relations

An output column of a select statement records under which name of the query a later stage reaches
it, what type it has and from which table and column its value was read.  The output columns of one
statement, kept in a table, form a `Relation` that later names are looked up in.
-/

namespace GraphSql

/-- Where a value was read: a table, and one of its columns when it is the value of a single one. -/
structure Origin where
  table : String
  column : Option String
  deriving DecidableEq

structure ResultColumn where
  name : String
  expr : Relational.Expr
  /-- The name by which a later stage reaches the value. -/
  scopeName : Option String := none
  /-- The key, when the value is a property of what `scopeName` stands for. -/
  key : Option String := none
  type : Option ColumnType := none
  aggregate : Option Aggregate := none
  /-- Whether the value is a collected array. -/
  isList : Bool := false
  origin : Option Origin := none

def ResultColumn.item (c : ResultColumn) : Relational.SelectItem := ⟨c.expr, c.name⟩

/-- A table that holds the result of an earlier stage. -/
structure Relation where
  name : String
  columns : List ResultColumn

namespace Relation

/-- The column that holds the whole value of a name. -/
def whole? (r : Relation) (name : String) : Option ResultColumn :=
  r.columns.find? fun c => c.scopeName == some name && c.key == none

/-- The column that holds a property of a name; an empty key never matches. -/
def property? (r : Relation) (name key : String) : Option ResultColumn :=
  r.columns.find? fun c => c.scopeName == some name &&
    match c.key with
    | some k => k != "" && Text.sameName k key
    | none => false

/-- The columns that hold the properties of a name. -/
def properties (r : Relation) (name : String) : List ResultColumn :=
  r.columns.filter fun c => c.scopeName == some name && c.key.isSome

/-- The column that identifies what a name stands for: its id, or else its whole value. -/
def key? (r : Relation) (name : String) : Option ResultColumn :=
  match r.property? name Schema.nodeId with
  | some c => some c
  | none => r.whole? name

end Relation

end GraphSql
