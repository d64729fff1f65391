import GraphSql.Scope.Basic

/-!
# Expressions in a scope

`Scope.compile` turns an expression of a query into a relational one.  Names become columns of the
scope.  A literal takes the type of the column that it is compared with, if that type is known.
-/

namespace GraphSql.Scope

open Relational (Affix Comparator Literal)

/-- An expression as an operand: names and properties keep what is known about them, all else is
only the compiled expression. -/
def operand (s : Scope) (e : Query.Expr) (compiled : Except Error Relational.Expr) :
    Except Error Resolved :=
  match e with
  | .var name => s.lookupName name
  | .property (.var name) key => s.lookupProperty name key
  | _ => compiled.map fun expr => { expr }

/-- An expression next to something of the given type: a literal takes that type, all else is left
as it is. -/
def typed (e : Query.Expr) (type : Option ColumnType)
    (otherwise : Except Error Relational.Expr) : Except Error Relational.Expr :=
  match e.value? with
  | some v => .ok (.literal (Literal.ofValueFor type v))
  | none => otherwise

/-- A comparison of two relational expressions. -/
def comparison (op : Query.Comparison) (l r : Relational.Expr) : Relational.Expr :=
  match op with
  | .eq => .compare .eq l r
  | .ne => .compare .ne l r
  | .lt => .compare .lt l r
  | .gt => .compare .gt l r
  | .le => .compare .le l r
  | .ge => .compare .ge l r
  | .isIn => .equalsAny l r
  | .contains => .like .anywhere l r
  | .startsWith => .like .start l r
  | .endsWith => .like .finish l r

mutual

/-- The relational form of an expression. -/
def compile (s : Scope) : Query.Expr → Except Error Relational.Expr
  | .var name => (s.lookupName name).map Resolved.expr
  | .property (.var name) key => (s.lookupProperty name key).map Resolved.expr
  | .property _ _ => .error .nestedProperty
  | .null => .ok (.literal .null)
  | .boolean b => .ok (.literal (.boolean b))
  | .integer n => .ok (.literal (.integer n))
  | .number x => .ok (.literal (.number x))
  | .text t => .ok (.literal (.text t))
  | .list es => do return .array (← compileAll s es)
  | .map _ => .error .mapValue
  | .not e => do return .not (← compile s e)
  | .negate e => do return .negate (← compile s e)
  | .binary op l r => do
    let left ← compile s l
    let right ← compile s r
    return .binary op left right
  | .nullTest negated e => do
    let left ← s.operand e (compile s e)
    return .nullTest negated left.expr
  | .compare .isIn l (.list es) => do
    let left ← s.operand l (compile s l)
    return .inList left.expr (← compileTyped s left.type es)
  | .compare .isIn l r => do
    let left ← s.operand l (compile s l)
    let right ← s.operand r (compile s r)
    return .equalsAny left.expr right.expr
  | .compare op l r => do
    let left ← s.operand l (compile s l)
    let right ← s.operand r (compile s r)
    let leftExpr ← typed l right.type (.ok left.expr)
    let rightExpr ← typed r left.type (.ok right.expr)
    return comparison op leftExpr rightExpr
  | .call f distinct args => do return .call (functionName f) distinct (← compileAll s args)
  | .callStar f => .ok (.call (functionName f) false [.star])

def compileAll (s : Scope) : List Query.Expr → Except Error (List Relational.Expr)
  | [] => .ok []
  | e :: es => do
    let first ← compile s e
    let rest ← compileAll s es
    return first :: rest

/-- The elements of a list, each next to something of the given type. -/
def compileTyped (s : Scope) (type : Option ColumnType) :
    List Query.Expr → Except Error (List Relational.Expr)
  | [] => .ok []
  | e :: es => do
    let first ← typed e type (compile s e)
    let rest ← compileTyped s type es
    return first :: rest

end

/-- An operand of the scope. -/
def resolve (s : Scope) (e : Query.Expr) : Except Error Resolved := s.operand e (s.compile e)

end GraphSql.Scope
