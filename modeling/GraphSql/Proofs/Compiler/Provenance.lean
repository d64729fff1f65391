import GraphSql.Proofs.Compiler.NameColumns
import GraphSql.Proofs.Scope.Provenance

/-!
# Origins in prepared queries

A query is prepared in one or two stages, and its output columns say from which column of which table
their values come.  When the columns of the temporary table are replaced by what was written into them
(`Prepared.unfolded`), the expression of such a column is the column that it names, in calls of
`array_agg`, `MIN` and `MAX` (`Compiler.wraps_of_prepare`).

A column is marked as a list just when the outermost of these calls is `array_agg`.  So the mark tells
whether values are collected, except for the least or greatest of collected lists, which are lists but
not marked as such (`Compiler.isList_iff_of_prepare`).
-/

namespace GraphSql

open Relational (Expr Select SelectItem Statement)

/-! ## Calls over a column -/

namespace Relational.Expr

/-- The column `c` of the source `x`, perhaps in calls that have it for their only argument and collect
values or pick one of them. -/
inductive Wraps (x c : String) : Expr → Prop
  | column : Wraps x c (.column x c)
  | call {function : String} {distinct : Bool} {e : Expr} :
      function ∈ ["array_agg", "MIN", "MAX"] → Wraps x c e → Wraps x c (.call function distinct [e])

/-- The outermost call collects values. -/
def Collects (e : Expr) : Prop := ∃ distinct args, e = .call "array_agg" distinct args

/-- Some call collects values. -/
def HoldsCollect (e : Expr) : Prop := ∃ f ∈ e.functions, Text.lower f = "array_agg"

/-- The outermost call picks one of several values, and in its arguments some call collects values. -/
def PicksCollected (e : Expr) : Prop :=
  ∃ f distinct args, e = .call f distinct args ∧ f ∈ ["MIN", "MAX"] ∧ ∃ a ∈ args, a.HoldsCollect

theorem Tells.wraps {x c : String} {isList : Bool} {e : Expr} (h : e.Tells (· = 0) x c isList) :
    e.Wraps x c := by
  induction h with
  | column => exact .column
  | collect hrest _ ih =>
    cases List.length_eq_zero_iff.mp hrest
    exact .call (by decide) ih
  | pick ha hrest _ ih =>
    cases List.length_eq_zero_iff.mp hrest
    rcases ha with rfl | rfl
    · exact .call (by decide) ih
    · exact .call (by decide) ih

/-- The mark for lists is about the outermost call. -/
theorem Tells.isList_iff {more : Nat → Prop} {x c : String} {isList : Bool} {e : Expr}
    (h : e.Tells more x c isList) : isList = true ↔ e.Collects := by
  cases h with
  | column => simp [Collects]
  | collect => simp [Collects, Aggregate.sql]
  | pick ha => rcases ha with rfl | rfl <;> simp [Collects, Aggregate.sql]

theorem mem_functionsAll {f : String} {es : List Expr} :
    f ∈ functionsAll es ↔ ∃ e ∈ es, f ∈ e.functions := by
  induction es with
  | nil => simp [functionsAll]
  | cons e es ih => simp [functionsAll, ih]

/-- A call is in the outermost one or in its arguments. -/
theorem holdsCollect_call {f : String} {distinct : Bool} {args : List Expr} :
    (Expr.call f distinct args).HoldsCollect ↔
      Text.lower f = "array_agg" ∨ ∃ a ∈ args, a.HoldsCollect := by
  simp only [HoldsCollect, functions, List.mem_cons, mem_functionsAll]
  constructor
  · rintro ⟨g, rfl | ⟨a, ha, hg⟩, hname⟩
    · exact .inl hname
    · exact .inr ⟨a, ha, g, hg, hname⟩
  · rintro (hname | ⟨a, ha, g, hg, hname⟩)
    · exact ⟨f, .inl rfl, hname⟩
    · exact ⟨g, .inr ⟨a, ha, hg⟩, hname⟩

/-- Values are collected by the outermost call or below one that picks a value. -/
theorem Tells.holdsCollect_iff {more : Nat → Prop} {x c : String} {isList : Bool} {e : Expr}
    (h : e.Tells more x c isList) : e.HoldsCollect ↔ isList = true ∨ e.PicksCollected := by
  cases h with
  | column => simp [HoldsCollect, functions, PicksCollected]
  | collect =>
    have hname : Text.lower Aggregate.collect.sql = "array_agg" := by decide +kernel
    simp [holdsCollect_call, hname]
  | @pick a _ distinct e rest ha =>
    have hname : Text.lower a.sql ≠ "array_agg" ∧ a.sql ∈ ["MIN", "MAX"] := by
      rcases ha with rfl | rfl <;> decide +kernel
    rw [holdsCollect_call]
    constructor
    · rintro (hsame | hargs)
      · exact absurd hsame hname.1
      · exact .inr ⟨a.sql, distinct, e :: rest, rfl, hname.2, hargs⟩
    · rintro (hfalse | ⟨f, distinct, args, hcall, -, hargs⟩)
      · cases hfalse
      · cases hcall
        exact .inr hargs

end Relational.Expr

/-! ## Replacing the columns of temporary tables -/

/-- The statement that a temporary table is made from. -/
def Relational.Statement.filling? (table : String) : Statement → Option Select
  | .createTemp name s => if name = table then some s else none
  | _ => none

/-- A column is found by its name. -/
theorem DistinctColumns.find?_name {cs : List ResultColumn} (h : DistinctColumns cs)
    {c : ResultColumn} (hc : c ∈ cs) : cs.find? (fun d => d.name == c.name) = some c := by
  obtain ⟨d, hd⟩ : ∃ d, cs.find? (fun d => d.name == c.name) = some d := by
    rw [← Option.isSome_iff_exists, List.find?_isSome]
    exact ⟨c, hc, beq_self_eq_true c.name⟩
  have hname : d.name = c.name := by simpa using List.find?_some hd
  rw [hd, h.eq_of_name (List.mem_of_find?_eq_some hd) hc hname]

namespace Prepared

/-- What was written into a column of the temporary table that `x` stands for in the final statement;
any other column is left as it is. -/
def reference (p : Prepared) (x c : String) : Expr :=
  ((p.final.select.sources.find? fun source => source.name == x).bind fun source =>
    (p.setup.findSome? (Statement.filling? source.table)).bind fun s =>
      (s.items.find? fun item => item.name == c).map SelectItem.expr).getD (.column x c)

/-- An expression of the final statement without the columns of temporary tables. -/
def unfolded (p : Prepared) (e : Expr) : Expr := e.mapColumns p.reference

/-- The statement that reads the tables of the schema. -/
def base (p : Prepared) : Select :=
  match p.setup with
  | .createTemp _ s :: _ => s
  | _ => p.final.select

/-- In one stage there is nothing to replace. -/
theorem unfolded_plain (plan : Plan) (e : Expr) :
    ({ final := plan } : Prepared).unfolded e = e := by
  have hreference : ({ final := plan } : Prepared).reference = .column := by
    funext x c
    simp [reference]
  rw [unfolded, hreference, Expr.mapColumns_column]

/-- In two stages the columns of the temporary table are those of the first stage. -/
theorem reference_staged {schema : Schema} {first final : Plan} {table : String}
    {ms : List Query.Matching} {w p : Query.Projection} {condition : Option Query.Expr}
    (hfirst : Plan.ofClauses schema [] ms w = .ok first)
    (hfinal : Plan.ofClauses schema [(first.firstName, first.relation table)]
      [.reading first.firstName condition] p = .ok final) :
    ∀ c ∈ first.projection, ({ setup := [.createTemp table first.select], final } : Prepared).reference
      first.firstName c.name = c.expr := by
  intro c hc
  obtain ⟨projected, compiled, -, hselect⟩ := Plan.selects_reading hfinal
  have hsources : final.select.sources = [⟨table, first.firstName, .cross⟩] := hselect.sources
  have hfound : first.projection.find? (fun d => d.name == c.name) = some c :=
    (Plan.distinct_projection hfirst).find?_name hc
  have hitem : first.select.items.find? (fun item => item.name == c.name) = some c.item := by
    rw [Plan.items_eq_of_ofClauses hfirst, List.find?_map]
    exact congrArg (Option.map ResultColumn.item) hfound
  simp [reference, hsources, Statement.filling?, hitem, ResultColumn.item]

end Prepared

/-! ## Both stages -/

namespace Query

/-- The items of the projection of a clause. -/
def Clause.items : Clause → List ReturnItem
  | .passing w => w.items
  | .returning p => p.items
  | _ => []

/-- The items of all projections of a query. -/
def items (q : Query) : List ReturnItem := q.flatMap Clause.items

/-- How many arguments an expression has that is a call of an aggregate. -/
def Expr.aggregateArity : Expr → Nat
  | .call f _ args => if (Aggregate.ofName? f).isSome then args.length else 0
  | _ => 0

/-- No item is a call of an aggregate with more than one argument. -/
def UnaryAggregates (q : Query) : Prop := ∀ item ∈ q.items, item.expr.aggregateArity ≤ 1

theorem UnaryAggregates.allowed {q : Query} (h : q.UnaryAggregates) :
    ∀ item ∈ q.items, item.Allowed (· = 0) := by
  intro item hitem f distinct e rest he hf
  have harity := h item hitem
  rw [he, Expr.aggregateArity, if_pos hf, List.length_cons] at harity
  omega

end Query

namespace Compiler

open Query (Matching Projection WithProjection)

variable {c : Compiler} {k k' : Nat} {q : Query} {prepared : Prepared} {more : Nat → Prop}

/-- **The columns of a prepared query are what their origins say**, without the columns of temporary
tables. -/
theorem tracksTo_of_prepare (hq : ∀ item ∈ q.items, item.Allowed more)
    (h : (c.prepare q).run.run k = (.ok prepared, k')) :
    ∀ col ∈ prepared.final.projection,
      TracksTo more prepared.base.Binds col.origin col.isList (prepared.unfolded col.expr) := by
  cases preparesTo_of_prepare h with
  | plain hparts hplan =>
    rw [Query.plain?_eq_some hparts] at hq
    intro col hcol
    rw [Prepared.unfolded_plain]
    refine Plan.tracksTo_of_ofClauses (fun item hitem => hq item ?_) hplan col hcol
    exact List.mem_flatMap.mpr ⟨_, List.mem_append_right _ List.mem_cons_self, hitem⟩
  | @staged ms w p first final hparts hfirst hfinal =>
    rw [Query.staged?_eq_some hparts] at hq
    have hw : ∀ item ∈ w.items, item.Allowed more := fun item hitem =>
      hq item (List.mem_flatMap.mpr ⟨_, List.mem_append_right _ List.mem_cons_self, hitem⟩)
    have hp : ∀ item ∈ (finalProjection w p).items, item.Allowed more := by
      rw [items_finalProjection]
      exact fun item hitem => hq item (List.mem_flatMap.mpr ⟨_,
        List.mem_append_right _ (List.mem_cons_of_mem _ List.mem_cons_self), hitem⟩)
    exact Plan.tracksTo_of_reading (Plan.tracksTo_of_ofClauses hw hfirst)
      (Prepared.reference_staged hfirst hfinal) hp hfinal

theorem items_of_prepare (h : (c.prepare q).run.run k = (.ok prepared, k')) :
    prepared.final.select.items = prepared.final.projection.map ResultColumn.item := by
  cases preparesTo_of_prepare h with
  | plain _ hplan => exact Plan.items_eq_of_ofClauses hplan
  | staged _ _ hfinal => exact Plan.items_eq_of_ofClauses hfinal

/-- **Origins are sound.**  A query whose aggregates have at most one argument is prepared in one or
two stages.  If an output column says that its value comes from a column of a table, then its
expression, with what was written into the temporary table in place of its columns, is this column in
calls of `array_agg`, `MIN` and `MAX`, and the statement that reads the tables of the schema gives the
name of its source to this table. -/
theorem wraps_of_prepare (hq : q.UnaryAggregates)
    (h : (c.prepare q).run.run k = (.ok prepared, k')) :
    prepared.final.select.items = prepared.final.projection.map ResultColumn.item ∧
      ∀ col ∈ prepared.final.projection, ∀ table column,
        col.origin = some ⟨table, some column⟩ →
          ∃ x, prepared.base.Binds x table ∧ (prepared.unfolded col.expr).Wraps x column := by
  refine ⟨items_of_prepare h, fun col hcol table column horigin => ?_⟩
  obtain ⟨x, hbinds, htells⟩ := tracksTo_of_prepare hq.allowed h col hcol table column horigin
  exact ⟨x, hbinds, htells.wraps⟩

/-- The prepared form of a text. -/
def prepared? (c : Compiler) (text : String) : Option (Query × Prepared) :=
  (Query.parse text).toOption.bind fun q =>
    ((c.prepare q).run.run 0).1.toOption.map fun prepared => (q, prepared)

theorem exists_run_of_prepared? {text : String} (h : c.prepared? text = some (q, prepared)) :
    Query.parse text = .ok q ∧ ∃ k', (c.prepare q).run.run 0 = (.ok prepared, k') := by
  obtain ⟨q₀, hq, h⟩ := Option.bind_eq_some_iff.mp h
  obtain ⟨prepared₀, hrun, h⟩ := Option.map_eq_some_iff.mp h
  cases h
  exact ⟨Except.eq_ok_of_toOption hq, Compile.exists_run_of_toOption hrun⟩

/-- The greatest list of ages that someone leads to. -/
def topText : String :=
  "MATCH (a:Person)-[r]->(b) WITH a, collect(DISTINCT b.age) AS ages RETURN max(ages) AS top, a.name"

/-- Both columns are what their origins say, also the one that is aggregated twice. -/
theorem wraps_of_prepare_top :
    ∃ q prepared k', Query.parse topText = .ok q ∧ q.UnaryAggregates ∧
      (peopleCompiler.prepare q).run.run 0 = (.ok prepared, k') ∧
      prepared.final.projection.map (fun col =>
          (col.origin, (prepared.unfolded col.expr).render)) =
        [(some ⟨"nodes", some "age"⟩, "MAX(array_agg(DISTINCT b.age))"),
          (some ⟨"person", some "name"⟩, "a.name")] ∧
      ∀ col ∈ prepared.final.projection, ∀ table column,
        col.origin = some ⟨table, some column⟩ →
          ∃ x, prepared.base.Binds x table ∧ (prepared.unfolded col.expr).Wraps x column := by
  have hfacts : ((peopleCompiler.prepared? topText).map fun t =>
      (decide (∀ item ∈ t.1.items, item.expr.aggregateArity ≤ 1),
        t.2.final.projection.map fun col => (col.origin, (t.2.unfolded col.expr).render))) =
      some (true, [(some ⟨"nodes", some "age"⟩, "MAX(array_agg(DISTINCT b.age))"),
        (some ⟨"person", some "name"⟩, "a.name")]) := by decide +kernel
  obtain ⟨⟨q, prepared⟩, hprepared, hfacts⟩ := Option.map_eq_some_iff.mp hfacts
  obtain ⟨hunary, hcolumns⟩ := Prod.mk.inj hfacts
  obtain ⟨hq, k', hrun⟩ := exists_run_of_prepared? hprepared
  replace hunary := of_decide_eq_true hunary
  exact ⟨q, prepared, k', hq, hunary, hrun, hcolumns, (wraps_of_prepare hunary hrun).2⟩

/-- **Lists are marked by the outermost call.**  An output column of a prepared query that says which
column its value comes from is marked as a list just when its expression, with what was written into
the temporary table in place of its columns, is a call of `array_agg`.  The mark tells whether values
are collected anywhere in the expression just when it is not the least or greatest of values that are
collected. -/
theorem isList_iff_of_prepare (h : (c.prepare q).run.run k = (.ok prepared, k')) :
    prepared.final.select.items = prepared.final.projection.map ResultColumn.item ∧
      ∀ col ∈ prepared.final.projection, ∀ table column,
        col.origin = some ⟨table, some column⟩ →
          (col.isList = true ↔ (prepared.unfolded col.expr).Collects) ∧
          ((col.isList = true ↔ (prepared.unfolded col.expr).HoldsCollect) ↔
            ¬ (prepared.unfolded col.expr).PicksCollected) := by
  refine ⟨items_of_prepare h, fun col hcol table column horigin => ?_⟩
  have hall : ∀ item ∈ q.items, item.Allowed fun _ => True := fun _ _ _ _ _ _ _ _ => trivial
  obtain ⟨x, -, htells⟩ := tracksTo_of_prepare hall h col hcol table column horigin
  refine ⟨htells.isList_iff, ?_⟩
  rw [htells.holdsCollect_iff]
  constructor
  · intro hsame hpicks
    -- the outermost call cannot both pick and collect
    obtain ⟨distinct, args, hcall⟩ := htells.isList_iff.mp (hsame.mpr (.inr hpicks))
    obtain ⟨f, _, _, hpick, hf, -⟩ := hpicks
    cases hcall.symm.trans hpick
    exact absurd hf (by decide)
  · intro hpicks
    exact ⟨.inl, fun h => h.resolve_right hpicks⟩

/-- The ages of the people with each name, and the names. -/
def agesByNameText : String :=
  "MATCH (n:Person) WITH n.name AS name, collect(n.age) AS ages RETURN ages, name"

/-- A list is passed on with its mark, and a single value without one. -/
theorem isList_iff_of_prepare_agesByName :
    ∃ q prepared k', Query.parse agesByNameText = .ok q ∧
      (peopleCompiler.prepare q).run.run 0 = (.ok prepared, k') ∧
      prepared.final.projection.map (fun col =>
          (col.origin, col.isList, (prepared.unfolded col.expr).render)) =
        [(some ⟨"person", some "age"⟩, true, "array_agg(n.age)"),
          (some ⟨"person", some "name"⟩, false, "n.name")] ∧
      ∀ col ∈ prepared.final.projection, ∀ table column,
        col.origin = some ⟨table, some column⟩ →
          (col.isList = true ↔ (prepared.unfolded col.expr).Collects) ∧
          ((col.isList = true ↔ (prepared.unfolded col.expr).HoldsCollect) ↔
            ¬ (prepared.unfolded col.expr).PicksCollected) := by
  have hfacts : ((peopleCompiler.prepared? agesByNameText).map fun t =>
      t.2.final.projection.map fun col =>
        (col.origin, col.isList, (t.2.unfolded col.expr).render)) =
      some [(some ⟨"person", some "age"⟩, true, "array_agg(n.age)"),
        (some ⟨"person", some "name"⟩, false, "n.name")] := by decide +kernel
  obtain ⟨⟨q, prepared⟩, hprepared, hcolumns⟩ := Option.map_eq_some_iff.mp hfacts
  obtain ⟨hq, k', hrun⟩ := exists_run_of_prepared? hprepared
  exact ⟨q, prepared, k', hq, hrun, hcolumns, (isList_iff_of_prepare hrun).2⟩

/-- The least of the lists of ids, of which there is one. -/
def leastText : String := "MATCH (n:Person) WITH collect(n.id) AS xs RETURN min(xs) AS m"

/-- The loop `FOREACH (x IN m | SET x.age = 1)`. -/
def ageLoop : Query.Loop where
  name := "x"
  source := .var "m"
  actions := [.set [⟨"x", "age", .integer 1⟩]]

/-- What a block takes from each row that it goes through. -/
def taken : Statement → List String
  | .block b => b.declared.map Relational.BlockVariable.selected
  | _ => []

/-- **The least of some lists is not marked as a list**, although values are collected in its
expression.  A loop over it takes the list itself and not its elements. -/
theorem not_isList_of_least :
    ∃ q prepared k' col statements, Query.parse leastText = .ok q ∧
      (peopleCompiler.prepare q).run.run 0 = (.ok prepared, k') ∧
      prepared.final.projection = [col] ∧ col.origin = some ⟨"person", some "id"⟩ ∧
      col.isList = false ∧ (prepared.unfolded col.expr).render = "MIN(array_agg(n.id))" ∧
      (prepared.unfolded col.expr).HoldsCollect ∧
      peopleCompiler.iterate prepared [] ageLoop "m" = .ok statements ∧
      statements.flatMap taken = ["src.m"] := by
  have hfacts : ((peopleCompiler.prepared? leastText).bind fun t =>
      (peopleCompiler.iterate t.2 [] ageLoop "m").toOption.map fun statements =>
        (t.2.final.projection.map fun col =>
            (col.origin, col.isList, (t.2.unfolded col.expr).render),
          t.2.final.projection.all fun col => (t.2.unfolded col.expr).functions.contains "array_agg",
          statements.flatMap taken)) =
      some ([(some ⟨"person", some "id"⟩, false, "MIN(array_agg(n.id))")], true, ["src.m"]) := by
    decide +kernel
  obtain ⟨⟨q, prepared⟩, hprepared, hfacts⟩ := Option.bind_eq_some_iff.mp hfacts
  obtain ⟨statements, hstatements, hfacts⟩ := Option.map_eq_some_iff.mp hfacts
  rw [Prod.mk.injEq, Prod.mk.injEq] at hfacts
  obtain ⟨hcolumns, hcollects, htaken⟩ := hfacts
  obtain ⟨hq, k', hrun⟩ := exists_run_of_prepared? hprepared
  obtain ⟨col, hprojection, hcol⟩ := List.map_eq_singleton_iff.mp hcolumns
  rw [Prod.mk.injEq, Prod.mk.injEq] at hcol
  obtain ⟨horigin, hlist, hrender⟩ := hcol
  rw [hprojection] at hcollects
  have hholds : (prepared.unfolded col.expr).HoldsCollect := ⟨"array_agg",
    List.contains_iff_mem.mp (List.all_eq_true.mp hcollects col (List.mem_singleton_self col)),
    by decide⟩
  exact ⟨q, prepared, k', col, statements, hq, hrun, hprojection, horigin, hlist, hrender, hholds,
    Except.eq_ok_of_toOption hstatements, htaken⟩

end Compiler

end GraphSql
