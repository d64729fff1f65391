import GraphSql.Proofs.Compiler.SortKeys
import GraphSql.Proofs.Scope.Operands

/-!
# The columns that names are read from

In the final stage of a query every operand is a column of the temporary table (`Relation.operand?`),
and so is every column of a bare name (`Relation.shown`).  The two do not always agree: a name by
itself is returned as its whole value, but as an operand it stands for its id, when there is one.  So a
name with a whole value is read from one column everywhere just when it has no id beside it
(`Compiler.readsName_of_compile`).
-/

namespace GraphSql

namespace Relation

/-- The column that an operand is read from. -/
def operand? (r : Relation) : Query.Operand → Option ResultColumn
  | .name x => r.key? x
  | .property x key => r.property? x key

/-- The columns that a bare name is returned as: its whole value, or else its properties. -/
def shown (r : Relation) (x : String) : List ResultColumn :=
  match r.whole? x with
  | some c => [c]
  | none => r.properties x

/-- A name with a whole value always stands for some column. -/
theorem exists_key?_of_whole? {r : Relation} {x : String} {c : ResultColumn}
    (h : r.whole? x = some c) : ∃ d, r.key? x = some d := by
  rw [key?, h]
  cases r.property? x Schema.nodeId with
  | none => exact ⟨c, rfl⟩
  | some d => exact ⟨d, rfl⟩

/-- **A name with a whole value stands for it just when it has no id.** -/
theorem name_key?_eq_iff {r : Relation} (hr : DistinctColumns r.columns) {x : String}
    {whole key : ResultColumn} (hwhole : r.whole? x = some whole) (hkey : r.key? x = some key) :
    key.name = whole.name ↔ r.hasOneMeaning x = true := by
  rw [hasOneMeaning, hwhole, Option.isNone_some, Bool.false_or]
  unfold key? at hkey
  cases hid : r.property? x Schema.nodeId with
  | none =>
    rw [hid] at hkey
    cases hwhole.symm.trans hkey
    exact ⟨fun _ => rfl, fun _ => rfl⟩
  | some d =>
    rw [hid] at hkey
    cases hkey
    refine ⟨fun hname => ?_, fun h => absurd h Bool.false_ne_true⟩
    have hsame : key = whole :=
      hr.eq_of_name (Scope.mem_of_property? hid) (Scope.mem_of_whole? hwhole) hname
    -- an id is found by its key, and the column of a whole value has none
    have hfound := List.find?_some hid
    rw [hsame, (whole?_eq_some hwhole).2.2, Bool.and_false] at hfound
    cases hfound

end Relation

/-! ## Operands and items of a final stage -/

namespace Scope

variable {s : Scope} {name x : String} {r : Relation}

theorem lookup_reading_eq_ok {o : Query.Operand} {resolved : Resolved} :
    (reading name r).lookup o = .ok resolved ↔
      ∃ c, r.operand? o = some c ∧ resolved = c.resolved name := by
  constructor
  · intro h
    cases o with
    | name x => exact lookupName_reading_eq_ok h
    | property x key => exact lookupProperty_reading_eq_ok h
  · rintro ⟨c, hc, rfl⟩
    cases o with
    | name x => exact lookupName_reading name hc
    | property x key => exact lookupProperty_reading name hc

/-- The reference is to the column that the operand is read from. -/
def ReadsOperand (name : String) (r : Relation) (o : Query.Operand) (ref : String × String) : Prop :=
  ∃ c, r.operand? o = some c ∧ ref = (name, c.name)

/-- Operands that are found are read one after the other. -/
theorem forall₂_readsOperand : ∀ {os : List Query.Operand},
    (∀ o ∈ os, ∃ resolved, (reading name r).lookup o = .ok resolved) →
      List.Forall₂ (ReadsOperand name r) os (os.flatMap (reading name r).reads)
  | [], _ => .nil
  | o :: os, h => by
    obtain ⟨resolved, hlookup⟩ := h o List.mem_cons_self
    obtain ⟨c, hc, rfl⟩ := lookup_reading_eq_ok.mp hlookup
    have hreads : (reading name r).reads o = [(name, c.name)] := by
      rw [reads, hlookup]
      rfl
    rw [List.flatMap_cons, hreads]
    exact .cons ⟨c, hc, rfl⟩ (forall₂_readsOperand fun o ho => h o (List.mem_cons_of_mem _ ho))

/-- **An expression of a final stage refers to the columns of its operands.** -/
theorem readsOperands_of_compile {e : Query.Expr} {a : Relational.Expr}
    (h : (reading name r).compile e = .ok a) :
    List.Forall₂ (ReadsOperand name r) e.operands a.references := by
  rw [(traced_of_compile h).references]
  exact forall₂_readsOperand (canCompile_iff.mp ⟨a, h⟩).2

/-- Making names unique does not change what the columns hold. -/
theorem map_expr_freshColumns : ∀ (cs : List ResultColumn) (taken : List String),
    (freshColumns taken cs).map ResultColumn.expr = cs.map ResultColumn.expr
  | [], _ => rfl
  | c :: cs, _ => congrArg (c.expr :: ·) (map_expr_freshColumns cs _)

/-- A bare name gives the columns that it is returned as. -/
theorem Gives.map_expr_of_var {part : Part} (h : (reading name r).Gives part)
    (hitem : part.1.expr = .var x) :
    part.2.map ResultColumn.expr = (r.shown x).map fun c => .column name c.name := by
  obtain ⟨index, wanted, taken, hwanted, hcolumns⟩ := h
  rw [hcolumns, map_expr_freshColumns]
  rw [itemColumns, hitem] at hwanted
  dsimp only at hwanted
  -- the relation is all that the stage reads
  rw [variableColumns, stored?_reading, derived_reading] at hwanted
  simp only [List.findSome?_cons, List.findSome?_nil] at hwanted
  unfold derivedColumns at hwanted
  unfold Relation.shown
  cases hwhole : r.whole? x with
  | some c =>
    rw [hwhole] at hwanted
    cases hwanted
    rfl
  | none =>
    rw [hwhole] at hwanted
    dsimp only at hwanted ⊢
    cases hproperties : r.properties x with
    | nil =>
      rw [hproperties] at hwanted
      cases hwanted
    | cons d ds =>
      rw [hproperties] at hwanted
      cases hwanted
      rw [List.map_map]
      rfl

end Scope

namespace Plan

open Query (Matching Projection)

variable {schema : Schema} {name : String} {r : Relation} {condition : Option Query.Expr}
  {p : Projection} {plan : Plan}

/-- The parts of the projection of a final stage, and the keys that they make. -/
theorem exists_parts_reading
    (h : ofClauses schema [(name, r)] [.reading name condition] p = .ok plan) :
    ∃ parts, parts.map Prod.fst = p.items ∧ (∀ part ∈ parts, (Scope.reading name r).Gives part) ∧
      plan.projection = parts.flatMap Prod.snd ∧
      GroupsBy Query.Expr.CallsOpenly parts plan.select.groupBy := by
  obtain ⟨s, parts, hs, -, -, hitems, hgives, hcolumns, hgroups⟩ := exists_parts h
  cases (addPatterns_relation schema name r).symm.trans hs
  exact ⟨parts, hitems, hgives, hcolumns, hgroups⟩

end Plan

/-! ## Names in queries in two stages -/

namespace Compiler

open Query (Matching Projection WithProjection)
open Relational (Select Statement)

variable {c : Compiler} {k k' : Nat} {q : Query} {ms : List Matching} {w : WithProjection}
  {p : Projection} {statements : List Statement}

/-- Where the operand `x` stands in the expression, the compiled one refers to the given column. -/
def ReadsName (name x : String) (key : ResultColumn) (e : Query.Expr) (a : Relational.Expr) : Prop :=
  List.Forall₂ (fun o ref => o = .name x → ref = (name, key.name)) e.operands a.references

/-- The name `x` as an item by itself is the column `whole`, and inside of other items and in the
condition it is the column `key`. -/
structure ReadsNameBy (name x : String) (whole key : ResultColumn) (condition : Option Query.Expr)
    (parts : List Part) (final : Select) : Prop where
  bare : ∀ part ∈ parts, part.1.expr = .var x →
    part.2.map ResultColumn.expr = [.column name whole.name]
  items : ∀ part ∈ parts, (∀ y, part.1.expr ≠ .var y) →
    ∃ column, part.2 = [column] ∧ ReadsName name x key part.1.expr column.expr
  conditions : List.Forall₂ (ReadsName name x key) condition.toList final.conditions

theorem readsName_of_compile_reading {name x : String} {r : Relation} {key : ResultColumn}
    (hkey : r.key? x = some key) {e : Query.Expr} {a : Relational.Expr}
    (h : (Scope.reading name r).compile e = .ok a) : ReadsName name x key e a := by
  refine (Scope.readsOperands_of_compile h).imp fun o ref hread ho => ?_
  obtain ⟨d, hd, rfl⟩ := hread
  rw [ho] at hd
  cases hkey.symm.trans hd
  rfl

/-- A final stage reads a name in two ways. -/
theorem readsNameBy_of_gives {schema : Schema} {name x : String} {r : Relation}
    {condition : Option Query.Expr} {final : Plan}
    (h : Plan.ofClauses schema [(name, r)] [.reading name condition] p = .ok final)
    {parts : List Part} (hgives : ∀ part ∈ parts, (Scope.reading name r).Gives part)
    {whole key : ResultColumn} (hwhole : r.whole? x = some whole) (hkey : r.key? x = some key) :
    ReadsNameBy name x whole key condition parts final.select where
  bare := by
    intro part hpart hitem
    rw [(hgives part hpart).map_expr_of_var hitem, Relation.shown, hwhole]
    rfl
  items := by
    intro part hpart hitem
    obtain ⟨column, hcolumn, hcompile⟩ := (hgives part hpart).exists_compile hitem
    exact ⟨column, hcolumn, readsName_of_compile_reading hkey hcompile⟩
  conditions := by
    obtain ⟨projected, compiled, -, hselect⟩ := Plan.selects_reading h
    rw [hselect.conditions]
    exact (Scope.forall₂_of_compileAll hselect.compileAll_eq).imp fun _ _ =>
      readsName_of_compile_reading hkey

theorem items_finalProjection (w : WithProjection) (p : Projection) :
    (finalProjection w p).items = p.items := by
  unfold finalProjection
  split
  · rfl
  · rfl

/-- **A name is read from one column just when it has one meaning.**  A query in two stages becomes a
temporary table and a statement that reads it, whose items are what this table gives for those of the
query.  A name with a whole value in this table is returned as the column of this value.  Inside of the
items, as an operand or as the argument of an aggregate, and in the condition the name is always read
from one column as well.  The two columns are the same just when the table does not have an id for this
name. -/
theorem readsName_of_compile {text : String} (hq : Query.parse text = .ok q)
    (hparts : q.staged? = some (ms, w, p)) (h : (c.compile text).run.run k = (.ok statements, k')) :
    ∃ first table final parts, Plan.ofClauses c.schema [] ms w.toProjection = .ok first ∧
      statements = [.createTemp table first.select, .select final] ∧
      parts.map Prod.fst = p.items ∧
      (∀ part ∈ parts, (Scope.reading first.firstName (first.relation table)).Gives part) ∧
      final.items = (parts.flatMap Prod.snd).map ResultColumn.item ∧
      ∀ x whole, (first.relation table).whole? x = some whole →
        ∃ key, (first.relation table).key? x = some key ∧
          ReadsNameBy first.firstName x whole key w.condition parts final ∧
          (key.name = whole.name ↔ (first.relation table).hasOneMeaning x = true) := by
  obtain ⟨first, final, hfirst, hfinal, hstatements⟩ := exists_stages_of_compile hq hparts h
  obtain ⟨parts, hitems, hgives, hcolumns, -⟩ := Plan.exists_parts_reading hfinal
  obtain ⟨projected, compiled, hprojected, hselect⟩ := Plan.selects_reading hfinal
  refine ⟨first, c.tempAt (k + 1), final.select, parts, hfirst, hstatements,
    hitems.trans (items_finalProjection w p), hgives, ?_, fun x whole hwhole => ?_⟩
  · rw [hselect.items, ← hprojected, hcolumns]
  · obtain ⟨key, hkey⟩ := Relation.exists_key?_of_whole? hwhole
    exact ⟨key, hkey, readsNameBy_of_gives hfinal hgives hwhole hkey,
      Relation.name_key?_eq_iff (Plan.distinct_projection hfirst) hwhole hkey⟩

/-- An age that is compared, returned, added to and aggregated, beside the node that it comes from. -/
def agesText : String :=
  "MATCH (n:Person) WITH n.age AS x, n WHERE x > 30 RETURN x, x + 1 AS next, max(x)"

/-- The age is read from one column in all places. -/
theorem readsName_of_compile_ages :
    ∃ q ms w p statements k', Query.parse agesText = .ok q ∧ q.staged? = some (ms, w, p) ∧
      (peopleCompiler.compile agesText).run.run 0 = (.ok statements, k') ∧
      statements.getLast?.map Statement.render = some ("SELECT n.x, (n.x + 1) AS next, " ++
        "MAX(n.x) AS max FROM with_temp_00000000000000000000000000000001 n " ++
        "WHERE n.x > 30 GROUP BY n.x, (n.x + 1);") ∧
      ∃ first table final parts whole key,
        Plan.ofClauses peopleCompiler.schema [] ms w.toProjection = .ok first ∧
        statements = [.createTemp table first.select, .select final] ∧
        parts.map Prod.fst = p.items ∧ (first.relation table).whole? "x" = some whole ∧
        ReadsNameBy first.firstName "x" whole key w.condition parts final ∧
        key.name = whole.name := by
  have hfacts : ((peopleCompiler.stages? agesText).bind fun t =>
      ((t.2.1.relation "").whole? "x").map fun _ =>
        ((t.2.1.relation "").hasOneMeaning "x", t.2.2.select.render)) =
      some (true, "SELECT n.x, (n.x + 1) AS next, " ++
        "MAX(n.x) AS max FROM with_temp_00000000000000000000000000000001 n " ++
        "WHERE n.x > 30 GROUP BY n.x, (n.x + 1);") := by decide +kernel
  obtain ⟨⟨⟨ms, w, p⟩, first, final⟩, hstages, hfacts⟩ := Option.bind_eq_some_iff.mp hfacts
  obtain ⟨whole, hwhole, hfacts⟩ := Option.map_eq_some_iff.mp hfacts
  obtain ⟨hone, hrender⟩ := Prod.mk.inj hfacts
  obtain ⟨q, k', hq, hparts, hfirst, hrun⟩ := exists_run_of_stages? hstages
  obtain ⟨first', table, final', parts, hfirst', hstatements, hitems, -, -, hnames⟩ :=
    readsName_of_compile hq hparts hrun
  cases hfirst.symm.trans hfirst'
  obtain ⟨key, -, hreads, hsame⟩ := hnames "x" whole hwhole
  exact ⟨q, ms, w, p, _, k', hq, hparts, hrun, congrArg some hrender, first, table, final', parts,
    whole, key, hfirst, hstatements, hitems, hwhole, hreads, hsame.mpr hone⟩

/-- An age under the name of a node, beside the id of this node. -/
def idText : String :=
  "MATCH (n:Person), (x:Person) WITH n.age AS x, x.id WHERE x > 30 RETURN x"

/-- **A name with two meanings is read from two columns**: the age is returned, but the condition is
about the id. -/
theorem condition_ne_whole_of_id :
    ∃ q ms w p first whole table final k', Query.parse idText = .ok q ∧
      q.staged? = some (ms, w, p) ∧
      p.items.map (fun i => i.expr.name?) = [some "x"] ∧
      w.condition.map Query.Expr.operands = some [.name "x"] ∧
      Plan.ofClauses peopleCompiler.schema [] ms w.toProjection = .ok first ∧
      (peopleCompiler.compile idText).run.run 0 =
        (.ok [.createTemp table first.select, .select final], k') ∧
      (first.relation table).whole? "x" = some whole ∧
      final.items.flatMap (fun i => i.expr.references) = [(first.firstName, whole.name)] ∧
      final.conditions.flatMap Relational.Expr.references = [(first.firstName, Schema.nodeId)] ∧
      whole.name ≠ Schema.nodeId := by
  have hfacts : ((peopleCompiler.stages? idText).bind fun t =>
      ((t.2.1.relation "").whole? "x").map fun whole =>
        (t.1.2.2.items.map (fun i => i.expr.name?) == [some "x"] &&
            t.1.2.1.condition.map Query.Expr.operands == some [.name "x"],
          (t.2.1.firstName, whole.name), t.2.2.select.items.flatMap (fun i => i.expr.references),
          t.2.2.select.conditions.flatMap Relational.Expr.references)) =
      some (true, ("n", "x"), [("n", "x")], [("n", "id")]) := by decide +kernel
  obtain ⟨⟨⟨ms, w, p⟩, first, final⟩, hstages, hfacts⟩ := Option.bind_eq_some_iff.mp hfacts
  obtain ⟨whole, hwhole, hfacts⟩ := Option.map_eq_some_iff.mp hfacts
  obtain ⟨q, k', hq, hparts, hfirst, hrun⟩ := exists_run_of_stages? hstages
  rw [Prod.mk.injEq, Prod.mk.injEq, Prod.mk.injEq, Prod.mk.injEq, Bool.and_eq_true, beq_iff_eq,
    beq_iff_eq] at hfacts
  obtain ⟨⟨hitems, hcondition⟩, ⟨hname, hcolumn⟩, hreferences, hconditions⟩ := hfacts
  refine ⟨q, ms, w, p, first, whole, _, final.select, k', hq, hparts, hitems, hcondition, hfirst,
    hrun, hwhole, ?_, ?_, ?_⟩
  · rw [hreferences, hname, hcolumn]
  · rw [hconditions, hname]
    rfl
  · rw [hcolumn]
    decide

end Compiler

end GraphSql
