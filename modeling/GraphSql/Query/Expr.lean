import GraphSql.Value

/-!
# Expressions of a graph query

Expressions as the query language groups them.  An expression denotes a value of its own when it is
a literal, a list of literals or a negated number; `Expr.value?` gives it.
-/

namespace GraphSql.Query

/-- Operators between two expressions that group to the left. -/
inductive BinaryOp where
  | and
  | or
  | add
  | sub
  | mul
  | div
  | mod
  deriving DecidableEq

/-- Comparisons between two expressions, which do not chain. -/
inductive Comparison where
  | eq
  | ne
  | lt
  | gt
  | le
  | ge
  | isIn
  | contains
  | startsWith
  | endsWith
  deriving DecidableEq

inductive Expr where
  | var (name : String)
  | property (of : Expr) (key : String)
  | null
  | boolean (b : Bool)
  | integer (n : Nat)
  | number (x : Binary64)
  | text (s : String)
  | list (elements : List Expr)
  | map (entries : List (String × Expr))
  | not (e : Expr)
  | negate (e : Expr)
  | binary (op : BinaryOp) (left right : Expr)
  | compare (op : Comparison) (left right : Expr)
  /-- `e IS NULL`, or `e IS NOT NULL` when negated. -/
  | nullTest (negated : Bool) (e : Expr)
  | call (function : String) (distinct : Bool) (arguments : List Expr)
  /-- A call on all rows, such as `count(*)`. -/
  | callStar (function : String)
  deriving Inhabited

/-- The spelling of an operator. -/
def BinaryOp.text : BinaryOp → String
  | and => "AND"
  | or => "OR"
  | add => "+"
  | sub => "-"
  | mul => "*"
  | div => "/"
  | mod => "%"

/-- The spelling of a comparison. -/
def Comparison.text : Comparison → String
  | eq => "="
  | ne => "<>"
  | lt => "<"
  | gt => ">"
  | le => "<="
  | ge => ">="
  | isIn => "IN"
  | contains => "CONTAINS"
  | startsWith => "STARTS WITH"
  | endsWith => "ENDS WITH"

namespace Expr

/-- The negative of a number; nothing else has one. -/
def negated? : Value → Option Value
  | .integer n => some (.integer (-n))
  | .number x => some (.number x.neg)
  | _ => none

mutual

/-- The value that an expression denotes by itself. -/
def value? : Expr → Option Value
  | .null => some .null
  | .boolean b => some (.boolean b)
  | .integer n => some (.integer n)
  | .number x => some (.number x)
  | .text s => some (.text s)
  | .list es => (values? es).map .list
  | .negate e => (value? e).bind negated?
  | _ => none

def values? : List Expr → Option (List Value)
  | [] => some []
  | e :: es =>
    match value? e, values? es with
    | some v, some vs => some (v :: vs)
    | _, _ => none

end

end Expr

end GraphSql.Query
