import GraphSql.Proofs.Relational.Names

/-!
# What conditions mean

The conditions that patterns make are evaluated on rows.  Values are integers, texts, truth values or
null.  Equality is unknown, that is null, unless it compares two integers or two texts, membership in
a list is the disjunction of the equalities with its elements, and a condition counts only when it is
true.  Columns are named without regard to letter case.
-/

namespace GraphSql.Relational

/-- The columns of a node or an edge that patterns look at. -/
structure Row where
  id : Int
  source : Int
  target : Int
  type : String

inductive Datum where
  | null
  | integer (n : Int)
  | text (s : String)
  | truth (b : Bool)
  deriving DecidableEq

namespace Datum

def equal : Datum → Datum → Datum
  | integer m, integer n => truth (m = n)
  | text s, text t => truth (s = t)
  | _, _ => null

/-- The disjunction of three truth values. -/
def or : Datum → Datum → Datum
  | truth true, _ => truth true
  | _, truth true => truth true
  | truth false, truth false => truth false
  | _, _ => null

/-- The conjunction of three truth values. -/
def and : Datum → Datum → Datum
  | truth false, _ => truth false
  | _, truth false => truth false
  | truth true, truth true => truth true
  | _, _ => null

/-- Whether a value is among others. -/
def isIn (d : Datum) (ds : List Datum) : Datum :=
  ds.foldr (fun e found => (d.equal e).or found) (truth false)

/-- The conjunction of all. -/
def all (ds : List Datum) : Datum := ds.foldr and (truth true)

theorem or_eq_true {d e : Datum} : d.or e = truth true ↔ d = truth true ∨ e = truth true := by
  rcases d with _ | _ | _ | (_ | _) <;> rcases e with _ | _ | _ | (_ | _) <;> simp [or]

theorem and_eq_true {d e : Datum} : d.and e = truth true ↔ d = truth true ∧ e = truth true := by
  rcases d with _ | _ | _ | (_ | _) <;> rcases e with _ | _ | _ | (_ | _) <;> simp [and]

theorem isIn_eq_true {d : Datum} {ds : List Datum} :
    d.isIn ds = truth true ↔ ∃ e ∈ ds, d.equal e = truth true := by
  induction ds with
  | nil => simp [isIn]
  | cons e es ih =>
    rw [isIn] at ih
    rw [isIn, List.foldr_cons, or_eq_true, ih]
    simp

theorem all_eq_true {ds : List Datum} : all ds = truth true ↔ ∀ d ∈ ds, d = truth true := by
  induction ds with
  | nil => simp [all]
  | cons d ds ih =>
    rw [all] at ih
    rw [all, List.foldr_cons, and_eq_true, ih]
    simp

end Datum

/-- The value of a column. -/
def Row.column (r : Row) (name : String) : Datum :=
  if Text.sameName name Schema.nodeId then .integer r.id
  else if Text.sameName name Schema.edgeSource then .integer r.source
  else if Text.sameName name Schema.edgeTarget then .integer r.target
  else if Text.sameName name Schema.edgeType then .text r.type
  else .null

mutual

/-- The value of an expression on the rows that the sources stand for.  Only what patterns make is
given a value. -/
def Expr.eval (rows : String → Row) : Expr → Datum
  | .column x c => (rows x).column c
  | .literal (.integer n) => .integer n
  | .literal (.text s) => .text s
  | .compare .eq l r => (Expr.eval rows l).equal (Expr.eval rows r)
  | .inList e es => (Expr.eval rows e).isIn (Expr.evalAll rows es)
  | .ifElse c a b =>
    if Expr.eval rows c = .truth true then Expr.eval rows a else Expr.eval rows b
  | _ => .null

def Expr.evalAll (rows : String → Row) : List Expr → List Datum
  | [] => []
  | e :: es => Expr.eval rows e :: Expr.evalAll rows es

end

theorem Expr.evalAll_eq_map (rows : String → Row) (es : List Expr) :
    Expr.evalAll rows es = es.map (Expr.eval rows) := by
  induction es with
  | nil => rfl
  | cons e es ih => rw [Expr.evalAll, ih, List.map_cons]

/-- A condition is true on rows. -/
def Expr.Holds (rows : String → Row) (e : Expr) : Prop := e.eval rows = .truth true

/-- The conjunction of the conditions of a join is true on rows. -/
def Join.Holds (rows : String → Row) (j : Join) : Prop :=
  Datum.all (j.conditions.map (Expr.eval rows)) = .truth true

theorem Join.holds_iff {rows : String → Row} {j : Join} :
    j.Holds rows ↔ ∀ e ∈ j.conditions, e.Holds rows := by
  simp [Join.Holds, Datum.all_eq_true, Expr.Holds]

/-- All join conditions and all further conditions are true on rows. -/
def Select.Holds (rows : String → Row) (s : Select) : Prop :=
  (∀ x ∈ s.sources, x.join.Holds rows) ∧ ∀ e ∈ s.conditions, e.Holds rows

/-! ## Equality and columns -/

theorem equal_integer {m n : Int} :
    (Datum.integer m).equal (.integer n) = .truth true ↔ m = n := by
  simp [Datum.equal]

theorem equal_text {s t : String} : (Datum.text s).equal (.text t) = .truth true ↔ s = t := by
  simp [Datum.equal]

namespace Row

variable (r : Row)

theorem column_nodeId {c : String} (h : Text.sameName c Schema.nodeId = true) :
    r.column c = .integer r.id := by
  rw [column, if_pos h]

theorem column_edgeSource : r.column Schema.edgeSource = .integer r.source := by
  rw [column, if_neg (by decide +kernel), if_pos (by decide +kernel)]

theorem column_edgeTarget : r.column Schema.edgeTarget = .integer r.target := by
  rw [column, if_neg (by decide +kernel), if_neg (by decide +kernel), if_pos (by decide +kernel)]

theorem column_edgeType : r.column Schema.edgeType = .text r.type := by
  rw [column, if_neg (by decide +kernel), if_neg (by decide +kernel), if_neg (by decide +kernel),
    if_pos (by decide +kernel)]

end Row

end GraphSql.Relational
