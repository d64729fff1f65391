import Mathlib.Data.List.Basic
import GraphSql.Relational.Statement

/-!
# Names in select statements

What a select statement says about names is said once for trees of any shape: `Expr.All R W` states
that every column reference `x.c` of an expression satisfies `R x c` and that every function name
satisfies `W`.  An output name has no place in an expression; it can only be a sort key by itself
(`OrderItem.All`).  `Select.All` extends this to a whole statement.
-/

namespace GraphSql.Relational

variable (R : String → String → Prop) (W : String → Prop)

mutual

/-- All column references satisfy `R` and all function names `W`; there are no output names. -/
def Expr.All : Expr → Prop
  | .column source name => R source name
  | .output _ => False
  | .star => True
  | .literal _ => True
  | .row es => Expr.AllOf es
  | .array es => Expr.AllOf es
  | .not e => Expr.All e
  | .negate e => Expr.All e
  | .binary _ l r => Expr.All l ∧ Expr.All r
  | .nullTest _ e => Expr.All e
  | .compare _ l r => Expr.All l ∧ Expr.All r
  | .inList e es => Expr.All e ∧ Expr.AllOf es
  | .equalsAny e a => Expr.All e ∧ Expr.All a
  | .like _ e part => Expr.All e ∧ Expr.All part
  | .call f _ es => W f ∧ Expr.AllOf es
  | .ifElse c a b => Expr.All c ∧ Expr.All a ∧ Expr.All b

@[inherit_doc Expr.All]
def Expr.AllOf : List Expr → Prop
  | [] => True
  | e :: es => Expr.All e ∧ Expr.AllOf es

end

variable {R W}

theorem Expr.allOf_iff {es : List Expr} : Expr.AllOf R W es ↔ ∀ e ∈ es, e.All R W := by
  induction es with
  | nil => simp [Expr.AllOf]
  | cons e es ih => simp [Expr.AllOf, ih]

mutual

theorem Expr.all_mono {R' : String → String → Prop} {W' : String → Prop}
    (hR : ∀ x c, R x c → R' x c) (hW : ∀ n, W n → W' n) : ∀ e : Expr, e.All R W → e.All R' W'
  | .column source name, h => hR source name h
  | .output _, h => h
  | .star, _ => trivial
  | .literal _, _ => trivial
  | .row es, h => Expr.allOf_mono hR hW es h
  | .array es, h => Expr.allOf_mono hR hW es h
  | .not e, h => Expr.all_mono hR hW e h
  | .negate e, h => Expr.all_mono hR hW e h
  | .binary _ l r, h => ⟨Expr.all_mono hR hW l h.1, Expr.all_mono hR hW r h.2⟩
  | .nullTest _ e, h => Expr.all_mono hR hW e h
  | .compare _ l r, h => ⟨Expr.all_mono hR hW l h.1, Expr.all_mono hR hW r h.2⟩
  | .inList e es, h => ⟨Expr.all_mono hR hW e h.1, Expr.allOf_mono hR hW es h.2⟩
  | .equalsAny e a, h => ⟨Expr.all_mono hR hW e h.1, Expr.all_mono hR hW a h.2⟩
  | .like _ e part, h => ⟨Expr.all_mono hR hW e h.1, Expr.all_mono hR hW part h.2⟩
  | .call f _ es, h => ⟨hW f h.1, Expr.allOf_mono hR hW es h.2⟩
  | .ifElse c a b, h =>
    ⟨Expr.all_mono hR hW c h.1, Expr.all_mono hR hW a h.2.1, Expr.all_mono hR hW b h.2.2⟩

theorem Expr.allOf_mono {R' : String → String → Prop} {W' : String → Prop}
    (hR : ∀ x c, R x c → R' x c) (hW : ∀ n, W n → W' n) :
    ∀ es : List Expr, Expr.AllOf R W es → Expr.AllOf R' W' es
  | [], _ => trivial
  | e :: es, h => ⟨Expr.all_mono hR hW e h.1, Expr.allOf_mono hR hW es h.2⟩

end

/-! ## Select statements -/

/-- The conditions that a source is joined on. -/
def Join.conditions : Join → List Expr
  | .cross => []
  | .on cs => cs

variable (R W)

structure Source.All (s : Source) : Prop where
  table : W s.table
  name : W s.name
  join : ∀ e ∈ s.join.conditions, e.All R W

/-- A sort key is an output name or an expression. -/
def OrderItem.All (i : OrderItem) : Prop := (∃ n, i.expr = .output n ∧ W n) ∨ i.expr.All R W

structure Select.All (s : Select) : Prop where
  items : ∀ i ∈ s.items, i.expr.All R W ∧ W i.name
  sources : ∀ x ∈ s.sources, x.All R W
  conditions : ∀ e ∈ s.conditions, e.All R W
  groupBy : ∀ e ∈ s.groupBy, e.All R W
  orderBy : ∀ i ∈ s.orderBy, i.All R W
  offset : ∀ e ∈ s.offset, e.All R W
  limit : ∀ e ∈ s.limit, e.All R W

variable {R W} in
theorem Select.All.mono {R' : String → String → Prop} {W' : String → Prop} {s : Select}
    (h : s.All R W) (hR : ∀ x c, R x c → R' x c) (hW : ∀ n, W n → W' n) : s.All R' W' where
  items i hi := ⟨i.expr.all_mono hR hW (h.items i hi).1, hW i.name (h.items i hi).2⟩
  sources x hx := ⟨hW x.table (h.sources x hx).table, hW x.name (h.sources x hx).name,
    fun e he => e.all_mono hR hW ((h.sources x hx).join e he)⟩
  conditions e he := e.all_mono hR hW (h.conditions e he)
  groupBy e he := e.all_mono hR hW (h.groupBy e he)
  orderBy i hi := (h.orderBy i hi).imp (fun ⟨n, hn, hname⟩ => ⟨n, hn, hW n hname⟩)
    (i.expr.all_mono hR hW)
  offset e he := e.all_mono hR hW (h.offset e he)
  limit e he := e.all_mono hR hW (h.limit e he)

/-! ## Writes -/

def Operand.All : Operand → Prop
  | .literal _ => True
  | .loopVar name => W name
  | .rowColumn column => W column
  | .nodeWith table column value => W table ∧ W column ∧ Operand.All value

def RowTest.All : RowTest → Prop
  | .equals column value => W column ∧ value.All W
  | .idAmong column table => W column ∧ W table

def Write.All : Write → Prop
  | .update table assignments test =>
    W table ∧ (∀ a ∈ assignments, W a.1 ∧ a.2.All W) ∧ test.All W
  | .insertEdge values rows => (∀ v ∈ values, W v.1 ∧ v.2.All W) ∧ ∀ table ∈ rows, W table

structure Block.All (b : Block) : Prop where
  declared : ∀ v ∈ b.declared, W v.name ∧ W v.column
  source : b.source.All R W
  body : ∀ w ∈ b.body, w.All W

end GraphSql.Relational
