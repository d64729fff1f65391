import GraphSql.Compiler.Basic
import GraphSql.Query.Names

/-!
# Actions of a loop

What a loop does for an element becomes writes: assignments update the rows of nodes, and a pattern
inserts an edge.  A `LoopEnv` says what the variables of the actions stand for.
-/

namespace GraphSql

open Query (Action Assignment Pattern)
open Relational (Literal Operand RowTest Write)

/-- How an element of the list identifies a node: by a column of a table. -/
structure ElementKey where
  table : String := Schema.nodesTable
  column : String := Schema.nodeId
  type : ColumnType := .bigint

/-- How the elements of an output column identify nodes, when they have the given type. -/
def ResultColumn.elementKey (c : ResultColumn) (type : ColumnType) : ElementKey where
  table := (c.origin.map Origin.table).getD Schema.nodesTable
  column := (c.origin.bind Origin.column).getD Schema.nodeId
  type := type

/-- What the variables of the actions stand for.  The element is a value of a list that is written
out, or else the variable of a block; in the first case `rows` is the temporary table with the result
of the query before the loop. -/
structure LoopEnv where
  name : String
  key : ElementKey
  element : Option Value
  /-- The output columns that identify the other variables. -/
  columns : List (String × ResultColumn)
  rows : Option String := none

namespace LoopEnv

/-! ## Variables and values -/

/-- The element where something of the given type is wanted. -/
def elementAs (env : LoopEnv) (type : ColumnType) : Operand :=
  match env.element with
  | some v => .literal (Literal.ofValueAs type v)
  | none => .loopVar env.name

/-- The id of the node that a variable stands for. -/
def idOf (env : LoopEnv) (name : String) : Except Error Operand :=
  if name = env.name then
    let element := env.elementAs env.key.type
    if env.key.column = Schema.nodeId then .ok element
    else .ok (.nodeWith env.key.table env.key.column element)
  else
    match env.columns.lookup name with
    | none => .error (.unsupported (.notBound name))
    | some c => .ok (if env.element.isSome then .rowColumn c.name else .loopVar name)

/-- The table that is read when one of the variables is a column of it. -/
def rowsFor (env : LoopEnv) (names : List String) : Option String :=
  if env.element.isSome && names.any fun n => (env.columns.lookup n).isSome then env.rows else none

/-- The value of a property: the element or a literal. -/
def value (env : LoopEnv) (type : ColumnType) (e : Query.Expr) : Except Error Operand :=
  let literal := match e.value? with
    | some v => .ok (.literal (Literal.ofValueAs type v))
    | none => .error (.unsupported .value)
  match e with
  | .var name => if name = env.name then .ok (env.elementAs type) else literal
  | _ => literal

/-! ## Assignments -/

/-- The table of the node that a variable stands for, and how its row is found. -/
def target (env : LoopEnv) (name : String) : Except Error (String × RowTest) :=
  if name = env.name then .ok (env.key.table, .equals env.key.column (env.elementAs env.key.type))
  else
    match env.columns.lookup name with
    | none => .error (.unsupported (.notBound name))
    | some c =>
      let table := (c.origin.map Origin.table).getD Schema.nodesTable
      if env.element.isSome then .ok (table, .idAmong c.name (env.rows.getD ""))
      else .ok (table, .equals Schema.nodeId (.loopVar name))

/-- The column and value of an assignment in a table with the given columns. -/
def assigned (env : LoopEnv) (table : String) (columns : List Column) (a : Assignment) :
    Except Error (String × Operand) :=
  match Column.find? columns a.key with
  | none => .error (.noColumnIn a.key table)
  | some c => do return (c.name, ← env.value c.type a.value)

/-- The update of the node that one variable stands for. -/
def update (env : LoopEnv) (schema : Schema) (items : List Assignment) (name : String) :
    Except Error Write := do
  let (table, test) ← env.target name
  let columns ← schema.columnsOfTable table
  let assignments ← (items.filter fun a => a.name == name).mapM (env.assigned table columns)
  return .update table assignments test

/-- The updates of a list of assignments: one for each variable, in order of first appearance. -/
def updates (env : LoopEnv) (schema : Schema) (items : List Assignment) :
    Except Error (List Write) :=
  (Query.firstAppearances (items.map Assignment.name)).mapM (env.update schema items)

/-! ## New edges -/

/-- The variable of a node pattern that has nothing else. -/
def bareName? (n : Query.NodePattern) : Option String :=
  if n.labels.isEmpty && n.properties.isNone then n.name else none

/-- The column and value of one property of a new edge. -/
def edgeProperty (env : LoopEnv) (type : Schema.TypeTable) (property : String × Query.Expr) :
    Except Error (String × Operand) :=
  match Column.find? type.columns property.1 with
  | none => .error (.noColumnOfType property.1 type.name)
  | some c => do return (c.name, ← env.value c.type property.2)

/-- What is wrong with the description of an edge by one relationship.  The type and the direction are
looked at before the ends. -/
def edgeFault (types : List String) (direction : Query.Direction) : LoopFault :=
  if types.length = 1 ∧ direction ≠ .both then .edgeEnds else .typeOrDirection

/-- A new edge between two nodes: the pattern has one relationship with one type and a direction, and
bare variables at its ends. -/
def insertEdge (env : LoopEnv) (schema : Schema) (p : Pattern) : Except Error Write :=
  match p.hops with
  | [hop] =>
    match hop.relationship.types, bareName? p.first, bareName? hop.node, hop.relationship.direction with
    | [_], some _, some _, .both => .error (.unsupported .typeOrDirection)
    | [type], some left, some right, direction => do
      let (source, target) := if direction = .incoming then (right, left) else (left, right)
      let type ← schema.typeTable type
      let sourceId ← env.idOf source
      let targetId ← env.idOf target
      let properties ← (hop.relationship.properties.getD []).mapM (env.edgeProperty type)
      return .insertEdge ((Schema.edgeSource, sourceId) :: (Schema.edgeTarget, targetId) ::
        (Schema.edgeType, .literal (.text type.name)) :: properties) (env.rowsFor [source, target])
    | types, _, _, direction => .error (.unsupported (edgeFault types direction))
  | _ => .error (.unsupported .relationshipCount)

/-! ## All actions -/

/-- The writes of one action. -/
def action (env : LoopEnv) (schema : Schema) : Action → Except Error (List Write)
  | .set items => env.updates schema items
  | .create p => do return [← env.insertEdge schema p]

/-- The writes of all actions in order. -/
def writes (env : LoopEnv) (schema : Schema) (actions : List Action) :
    Except Error (List Write) := do
  return (← actions.mapM (env.action schema)).flatten

end LoopEnv

end GraphSql
