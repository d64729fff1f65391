import GraphSql.Query.Expr
import GraphSql.Relational.Literal
import GraphSql.Relational.Name

/-!
# Relational expressions

The expressions of a select statement, kept as trees, with their text given by `Expr.render`.
Operators between two expressions are always bracketed, comparisons are not.
-/

namespace GraphSql.Relational

inductive Comparator where
  | eq
  | ne
  | lt
  | gt
  | le
  | ge
  deriving DecidableEq

/-- Where a text is looked for in another one. -/
inductive Affix where
  | anywhere
  | start
  | finish
  deriving DecidableEq

inductive Expr where
  | column (source name : String)
  /-- An output column of the same select statement, by its name. -/
  | output (name : String)
  | star
  | literal (l : Literal)
  | row (fields : List Expr)
  | array (elements : List Expr)
  | not (e : Expr)
  | negate (e : Expr)
  | binary (op : Query.BinaryOp) (left right : Expr)
  | nullTest (negated : Bool) (e : Expr)
  | compare (op : Comparator) (left right : Expr)
  | inList (e : Expr) (elements : List Expr)
  | equalsAny (e array : Expr)
  | like (affix : Affix) (e part : Expr)
  | call (function : String) (distinct : Bool) (arguments : List Expr)
  | ifElse (condition yes no : Expr)
  deriving Inhabited

def Comparator.text : Comparator → String
  | eq => "="
  | ne => "<>"
  | lt => "<"
  | gt => ">"
  | le => "<="
  | ge => ">="

namespace Expr

/-- The text of a test whether `part` stands in `e`. -/
def renderLike (affix : Affix) (e part : String) : String :=
  match affix with
  | .anywhere => e ++ " LIKE '%' || " ++ part ++ " || '%'"
  | .start => e ++ " LIKE " ++ part ++ " || '%'"
  | .finish => e ++ " LIKE '%' || " ++ part

mutual

def render : Expr → String
  | .column source name => columnRef source name
  | .output name => name
  | .star => "*"
  | .literal l => l.render
  | .row es => "ROW(" ++ Text.join ", " (renderAll es) ++ ")"
  | .array es => "ARRAY[" ++ Text.join ", " (renderAll es) ++ "]"
  | .not e => "NOT (" ++ render e ++ ")"
  | .negate e => "-" ++ render e
  | .binary op l r => "(" ++ render l ++ " " ++ op.text ++ " " ++ render r ++ ")"
  | .nullTest negated e => render e ++ (if negated then " IS NOT NULL" else " IS NULL")
  | .compare op l r => render l ++ " " ++ op.text ++ " " ++ render r
  | .inList e es => render e ++ " IN (" ++ Text.join ", " (renderAll es) ++ ")"
  | .equalsAny e a => render e ++ " = ANY(" ++ render a ++ ")"
  | .like affix e part => renderLike affix (render e) (render part)
  | .call f distinct es =>
    f ++ "(" ++ (if distinct then "DISTINCT " else "") ++ Text.join ", " (renderAll es) ++ ")"
  | .ifElse c a b =>
    "CASE WHEN " ++ render c ++ " THEN " ++ render a ++ " ELSE " ++ render b ++ " END"

def renderAll : List Expr → List String
  | [] => []
  | e :: es => render e :: renderAll es

end

end Expr

end GraphSql.Relational
