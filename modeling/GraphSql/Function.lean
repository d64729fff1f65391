import GraphSql.Query.Expr

/-!
# Functions

The functions of a query and what they are called in a relational statement.  Aggregates turn many
rows into one value; `Expr.aggregates` says whether an expression holds a call of one outside of lists
and maps.
-/

namespace GraphSql

/-- Functions of many rows. -/
inductive Aggregate where
  | count
  | sum
  | avg
  | min
  | max
  | collect
  deriving DecidableEq

namespace Aggregate

/-- The name of an aggregate in a query, in small letters. -/
def name : Aggregate → String
  | count => "count"
  | sum => "sum"
  | avg => "avg"
  | min => "min"
  | max => "max"
  | collect => "collect"

/-- The name of an aggregate in a statement. -/
def sql : Aggregate → String
  | count => "COUNT"
  | sum => "SUM"
  | avg => "AVG"
  | min => "MIN"
  | max => "MAX"
  | collect => "array_agg"

def all : List Aggregate := [count, sum, avg, min, max, collect]

/-- The aggregate that a function name means, in any letter case. -/
def ofName? (function : String) : Option Aggregate :=
  all.find? fun a => a.name == Text.lower function

end Aggregate

/-- The functions of one row that are called differently in a statement. -/
def scalarNames : List (String × String) :=
  [("tolower", "LOWER"), ("toupper", "UPPER"), ("size", "cardinality"), ("length", "length"),
   ("abs", "ABS"), ("coalesce", "COALESCE"), ("trim", "TRIM")]

/-- The name of a function in a statement; a function that is not known keeps its name in capitals. -/
def functionName (function : String) : String :=
  match Aggregate.ofName? function with
  | some a => a.sql
  | none => (scalarNames.lookup (Text.lower function)).getD (Text.upper function)

namespace Query.Expr

mutual

/-- Whether an aggregate is called in an expression. -/
def aggregates : Expr → Bool
  | .call f _ args => (Aggregate.ofName? f).isSome || anyAggregates args
  | .callStar f => (Aggregate.ofName? f).isSome
  | .property e _ => aggregates e
  | .binary _ l r => aggregates l || aggregates r
  | .compare _ l r => aggregates l || aggregates r
  | .nullTest _ e => aggregates e
  | .not e => aggregates e
  | .negate e => aggregates e
  | _ => false

def anyAggregates : List Expr → Bool
  | [] => false
  | e :: es => aggregates e || anyAggregates es

end

end Query.Expr

end GraphSql
