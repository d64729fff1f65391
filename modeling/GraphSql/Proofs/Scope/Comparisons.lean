import GraphSql.Proofs.Scope.Grouping
import GraphSql.Proofs.Scope.Operands

/-!
# The comparisons of an expression

The comparisons by `=`, `<>`, `<`, `>`, `<=` and `>=` in an expression, from left to right.  An
expression is compiled comparison by comparison: wherever a comparison stands, what is written for it
is what it is compiled to by itself (`Scope.comparisons_of_compile`).
-/

namespace GraphSql

namespace Query.Expr

mutual

/-- The comparisons in an expression, from left to right and those outside first. -/
def comparisons : Expr → List Expr
  | .list es => comparisonsAll es
  | .not e => comparisons e
  | .negate e => comparisons e
  | .binary _ l r => comparisons l ++ comparisons r
  | .compare op l r =>
    (if op.comparator?.isSome then [.compare op l r] else []) ++ (comparisons l ++ comparisons r)
  | .nullTest _ e => comparisons e
  | .call _ _ args => comparisonsAll args
  | _ => []

@[inherit_doc comparisons]
def comparisonsAll : List Expr → List Expr
  | [] => []
  | e :: es => comparisons e ++ comparisonsAll es

end

mutual

/-- What denotes a value by itself compares nothing. -/
theorem comparisons_of_value? : ∀ {e : Expr} {v : Value}, e.value? = some v → e.comparisons = []
  | .null, _, _ => rfl
  | .boolean _, _, _ => rfl
  | .integer _, _, _ => rfl
  | .number _, _, _ => rfl
  | .text _, _, _ => rfl
  | .list es, _, h => by
    rw [value?] at h
    obtain ⟨vs, hvs, -⟩ := Option.map_eq_some_iff.mp h
    exact comparisonsAll_of_values? hvs
  | .negate e, _, h => by
    rw [value?] at h
    obtain ⟨v, hv, -⟩ := Option.bind_eq_some_iff.mp h
    exact comparisons_of_value? (e := e) hv

theorem comparisonsAll_of_values? : ∀ {es : List Expr} {vs : List Value}, values? es = some vs →
    comparisonsAll es = []
  | [], _, _ => rfl
  | e :: es, _, h => by
    rw [values?] at h
    split at h
    · rename_i v vs hv hvs
      rw [comparisonsAll, comparisons_of_value? hv, comparisonsAll_of_values? hvs]
      rfl
    · cases h

end

end Query.Expr

namespace Relational.Expr

mutual

/-- The comparisons in an expression, from left to right and those outside first. -/
def comparisons : Expr → List Expr
  | .column _ _ => []
  | .output _ => []
  | .star => []
  | .literal _ => []
  | .row es => comparisonsAll es
  | .array es => comparisonsAll es
  | .not e => comparisons e
  | .negate e => comparisons e
  | .binary _ l r => comparisons l ++ comparisons r
  | .nullTest _ e => comparisons e
  | .compare op l r => .compare op l r :: (comparisons l ++ comparisons r)
  | .inList e es => comparisons e ++ comparisonsAll es
  | .equalsAny e a => comparisons e ++ comparisons a
  | .like _ e part => comparisons e ++ comparisons part
  | .call _ _ es => comparisonsAll es
  | .ifElse c a b => comparisons c ++ (comparisons a ++ comparisons b)

@[inherit_doc comparisons]
def comparisonsAll : List Expr → List Expr
  | [] => []
  | e :: es => comparisons e ++ comparisonsAll es

end

end Relational.Expr

namespace Scope

open Relational (Expr)

variable {s : Scope}

/-- The comparisons of the one are compiled to those of the other. -/
def Compares (s : Scope) (e : Query.Expr) (a : Expr) : Prop :=
  List.Forall₂ (fun d b => s.compile d = .ok b) e.comparisons a.comparisons

@[inherit_doc Compares]
def ComparesAll (s : Scope) (es : List Query.Expr) (as : List Expr) : Prop :=
  List.Forall₂ (fun d b => s.compile d = .ok b) (Query.Expr.comparisonsAll es)
    (Expr.comparisonsAll as)

theorem compares_of_value? {e : Query.Expr} {v : Value} (h : e.value? = some v)
    (l : Relational.Literal) : Compares s e (.literal l) := by
  rw [Compares, Query.Expr.comparisons_of_value? h]
  exact .nil

theorem Compares.of_typed {e : Query.Expr} {type : Option ColumnType}
    {x : Except Error Expr} {a : Expr}
    (hx : ∀ b, x = .ok b → Compares s e b) (h : typed e type x = .ok a) : Compares s e a := by
  rcases typed_eq_ok h with ⟨v, hv, rfl⟩ | ⟨-, h⟩
  · exact compares_of_value? hv _
  · exact hx a h

theorem comparisons_of_lookupName {x : String} {r : Resolved} (h : s.lookupName x = .ok r) :
    r.expr.comparisons = [] := by
  rcases lookupName_eq_ok h with ⟨n, table, columns, labels, -, -, rfl⟩ | ⟨e, -, rfl⟩ |
    ⟨p, -, c, -, rfl⟩
  · rfl
  · rfl
  · rfl

theorem comparisons_of_lookupProperty {x key : String} {r : Resolved}
    (h : s.lookupProperty x key = .ok r) : r.expr.comparisons = [] := by
  rcases lookupProperty_eq_ok h with ⟨table, columns, c, -, -, rfl⟩ | ⟨p, -, c, -, rfl⟩
  · rfl
  · rfl

/-- A comparison that is compiled to one comes before those of its sides. -/
theorem Compares.comparison {op : Query.Comparison} {l r : Query.Expr} {x y : Expr}
    (h : s.compile (.compare op l r) = .ok (comparison op x y)) (hop : op ≠ .isIn)
    (hl : Compares s l x) (hr : Compares s r y) :
    Compares s (.compare op l r) (comparison op x y) := by
  have hsides := List.rel_append hl hr
  cases op with
  | isIn => exact absurd rfl hop
  | eq => exact .cons h hsides
  | ne => exact .cons h hsides
  | lt => exact .cons h hsides
  | gt => exact .cons h hsides
  | le => exact .cons h hsides
  | ge => exact .cons h hsides
  | contains => exact hsides
  | startsWith => exact hsides
  | endsWith => exact hsides

theorem carries_compares : Carries s (Compares s) (ComparesAll s) fun _ => ComparesAll s where
  name hr := by
    rw [Compares, comparisons_of_lookupName hr]
    exact .nil
  property hr := by
    rw [Compares, comparisons_of_lookupProperty hr]
    exact .nil
  constant hl := hl.exists_value?.elim fun _ hv => compares_of_value? hv _
  list has := has
  not ha := ha
  negate _ ha := ha
  binary hx hy := List.rel_append hx hy
  nullTest ha := ha
  inList _ hx hys := List.rel_append hx hys
  equalsAny _ hx hy := List.rel_append hx hy
  compare hop h _ _ hx' hy' hx hy := by
    have hl : Compares s _ _ := .of_typed (by rintro _ ⟨⟩; exact hx) hx'
    have hr : Compares s _ _ := .of_typed (by rintro _ ⟨⟩; exact hy) hy'
    exact hl.comparison h hop hr
  call has := has
  callStar := .nil
  nil := .nil
  cons ha has := List.rel_append ha has
  nearNil := .nil
  nearCons ha he has := List.rel_append (Compares.of_typed he ha) has

/-- **The comparisons of an expression are compiled one by one.** -/
theorem comparisons_of_compile {e : Query.Expr} {a : Expr} (h : s.compile e = .ok a) :
    Compares s e a :=
  carries_compares.compile e h

theorem comparisonsAll_of_compileAll {es : List Query.Expr} {as : List Expr}
    (h : s.compileAll es = .ok as) : ComparesAll s es as :=
  carries_compares.compileAll es h

end Scope

end GraphSql
