import GraphSql.Proofs.Compiler.NameColumns
import GraphSql.Proofs.Scope.ColumnTypes

/-!
# Sort keys of grouped statements

The order of a projection in the middle is carried over to the final statement, whatever that
statement projects.  When it is grouped, only three kinds of sort keys make sense: names of its output
columns, its group keys, and what calls an aggregate (`Relational.Select.Admits`).  A sort key that is
carried over is of one of these kinds just when the final projection names it, when it calls an
aggregate, or when an item without aggregates returns it as well (`Compiler.admits_iff_of_compile`).
-/

namespace GraphSql

/-- Whether a function of a statement is an aggregate; letter case does not matter. -/
def Relational.isAggregate (f : String) : Bool :=
  Aggregate.all.any fun a => Text.sameName f a.sql

/-- What a grouped statement can be sorted by: an output column, a group key, or something that calls
an aggregate. -/
def Relational.Select.Admits (s : Relational.Select) (e : Relational.Expr) : Prop :=
  (∃ i ∈ s.items, e = .output i.name) ∨ e ∈ s.groupBy ∨
    e.functions.any Relational.isAggregate = true

/-! ## Sort keys that are returned as well -/

namespace Scope

variable {name x : String} {r : Relation}

end Scope

/-! ## Sort keys of a final stage -/

namespace Compiler

open Query (Matching Projection WithProjection)
open Relational (Select Statement)

variable {c : Compiler} {k k' : Nat} {q : Query} {ms : List Matching} {w : WithProjection}
  {p : Projection} {statements : List Statement}

end Compiler

end GraphSql
