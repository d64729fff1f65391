import GraphSql.Column
import GraphSql.Error
import GraphSql.Keyed

/-!
# The relational schema of a graph

A graph is stored in a table of all nodes, a table of all edges, one table for each mapped set of
labels and one for each relationship type.  A `Schema` records their columns.  Labels are read as
sets without regard to letter case, relationship types as names without regard to letter case; the
spelling of the mapping is kept for the names of tables and for the type column of the edges.
-/

namespace GraphSql

namespace Schema

def nodesTable : String := "nodes"

def edgesTable : String := "edges"

/-- The column that identifies a node. -/
def nodeId : String := "id"

/-- The columns of an edge that hold its start, its end and its type. -/
def edgeSource : String := "idl"

@[inherit_doc edgeSource]
def edgeTarget : String := "idr"

@[inherit_doc edgeSource]
def edgeType : String := "type"

def idColumn : Column := ⟨nodeId, .bigint⟩

/-- The columns that every table of all nodes has. -/
def coreNodeColumns : List Column := [idColumn, ⟨"label", .text⟩]

/-- The columns that every edge table has. -/
def coreEdgeColumns : List Column :=
  [⟨edgeSource, .bigint⟩, ⟨edgeTarget, .bigint⟩, ⟨edgeType, .text⟩]

/-- A mapped set of labels: its spelling and the columns of its table. -/
structure LabelTable where
  text : String
  columns : List Column
  deriving DecidableEq

/-- A mapped relationship type: its spelling and its own columns. -/
structure TypeTable where
  name : String
  columns : List Column
  deriving DecidableEq

/-- Labels as a caller names them: in one text with commas, or one by one. -/
inductive LabelRef where
  | text (s : String)
  | names (labels : List String)
  deriving DecidableEq

namespace LabelRef

def parts : LabelRef → List String
  | text s => Text.splitAt ',' s
  | names labels => labels

/-- The labels as they are named in a message. -/
def name : LabelRef → String
  | text s => s
  | names labels => Text.join ", " labels

/-- The members of the set of labels, in small letters; blank parts do not count. -/
def key (l : LabelRef) : List String :=
  ((l.parts.map Text.trim).filter (· ≠ "")).map Text.lower

end LabelRef

/-- Whether two lists have the same members. -/
def sameMembers (xs ys : List String) : Bool :=
  xs.all ys.contains && ys.all xs.contains

/-- Whether two ways to name labels mean the same set. -/
def LabelRef.same (l m : LabelRef) : Bool := sameMembers l.key m.key

/-- A text with an underscore in place of each comma and the blank behind it. -/
def joinLabels : List Char → List Char
  | [] => []
  | ',' :: ' ' :: cs => '_' :: joinLabels cs
  | c :: cs => c :: joinLabels cs

/-- The name of the table of a mapped set of labels, in small letters. -/
def LabelTable.table (e : LabelTable) : String :=
  Text.lower (String.ofList (joinLabels e.text.toList))

/-- The name of the table of a relationship type. -/
def TypeTable.table (e : TypeTable) : String := "e$" ++ Text.lower e.name

/-- The columns of the table of a relationship type. -/
def TypeTable.tableColumns (e : TypeTable) : List Column :=
  Column.merge [coreEdgeColumns, e.columns]

end Schema

/-- The tables of a graph.  Of two label entries with the same set of labels, and of two type entries
with the same name, only the later one is kept, so each entry is found by its own spelling. -/
structure Schema where
  labelTables : List Schema.LabelTable
  typeTables : List Schema.TypeTable
  nodeColumns : List Column
  edgeColumns : List Column
  deriving DecidableEq

namespace Schema

/-- The columns of a table as they are declared: in a text, or one by one. -/
inductive Definition where
  | text (s : String)
  | columns (cs : List Column)
  deriving DecidableEq

def Definition.read : Definition → Except DefinitionError (List Column)
  | text s => Column.ofDefinitions s
  | columns cs => .ok cs

/-- What a schema is built from.  The columns of the tables of all nodes and of all edges are
collected from the labels and types when they are not declared. -/
structure Declaration where
  labels : List (String × Definition) := []
  types : List (String × Definition) := []
  nodeColumns : Option Definition := none
  edgeColumns : Option Definition := none
  deriving DecidableEq

/-- Puts a label entry in the place of the one with the same set of labels. -/
def putLabel (entries : List LabelTable) (e : LabelTable) : List LabelTable :=
  putBy (fun f => LabelRef.same (.text f.text) (.text e.text)) e entries

/-- Puts a type entry in the place of the one with the same name. -/
def putType (entries : List TypeTable) (e : TypeTable) : List TypeTable :=
  putBy (fun f => Text.sameName f.name e.name) e entries

/-- The schema with the given entries in which each table of all nodes or edges has the declared
columns or, when none are declared, those of the entries. -/
def ofEntries (labels : List LabelTable) (types : List TypeTable)
    (nodeColumns edgeColumns : Option (List Column)) : Schema where
  labelTables := labels
  typeTables := types
  nodeColumns := Column.merge (coreNodeColumns ::
    match nodeColumns with
    | some cs => [cs]
    | none => labels.map LabelTable.columns)
  edgeColumns := Column.merge (coreEdgeColumns ::
    match edgeColumns with
    | some cs => [cs]
    | none => types.map TypeTable.columns)

/-- The schema of a declaration. -/
def build (d : Declaration) : Except DefinitionError Schema := do
  let labels ← d.labels.mapM fun (text, definition) => do
    return LabelTable.mk text (Column.merge [[idColumn], ← definition.read])
  let types ← d.types.mapM fun (name, definition) => do
    return TypeTable.mk name (← definition.read)
  let nodeColumns ← d.nodeColumns.mapM Definition.read
  let edgeColumns ← d.edgeColumns.mapM Definition.read
  return ofEntries (labels.foldl putLabel []) (types.foldl putType []) nodeColumns edgeColumns

/-! ## Lookup -/

def labelTable? (s : Schema) (l : LabelRef) : Option LabelTable :=
  s.labelTables.find? fun e => LabelRef.same (.text e.text) l

def labelTable (s : Schema) (l : LabelRef) : Except Error LabelTable :=
  match s.labelTable? l with
  | some e => .ok e
  | none => .error (.unmappedLabel l.name)

def typeTable? (s : Schema) (type : String) : Option TypeTable :=
  s.typeTables.find? fun e => Text.sameName e.name type

def typeTable (s : Schema) (type : String) : Except Error TypeTable :=
  match s.typeTable? type with
  | some e => .ok e
  | none => .error (.unmappedType type)

def hasLabel (s : Schema) (l : LabelRef) : Bool := (s.labelTable? l).isSome

def hasType (s : Schema) (type : String) : Bool := (s.typeTable? type).isSome

/-- The columns of a node table or of the table of all edges. -/
def columnsOfTable (s : Schema) (table : String) : Except Error (List Column) :=
  if table = nodesTable then .ok s.nodeColumns
  else if table = edgesTable then .ok s.edgeColumns
  else
    match s.labelTables.find? fun e => e.table == table with
    | some e => .ok e.columns
    | none => .error (.unmappedTable table)

/-! ## Table definitions -/

/-- All tables with their columns. -/
def tables (s : Schema) : List (String × List Column) :=
  (nodesTable, s.nodeColumns) :: (edgesTable, s.edgeColumns) ::
    (s.labelTables.map fun e => (e.table, e.columns)) ++
    s.typeTables.map fun e => (e.table, e.tableColumns)

def createTable (table : String) (columns : List Column) : String :=
  "CREATE TABLE " ++ table ++ "(" ++ Text.join ", " (columns.map Column.definition) ++ ");"

def dropTable (table : String) : String := "DROP TABLE IF EXISTS " ++ table ++ ";"

def createStatements (s : Schema) : List String :=
  s.tables.map fun (table, columns) => createTable table columns

def dropStatements (s : Schema) : List String :=
  s.tables.map fun (table, _) => dropTable table

end Schema

end GraphSql
