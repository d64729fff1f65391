import GraphSql.Proofs.Compiler.Results
import GraphSql.Proofs.Query.Shape

/-!
# How a query is compiled, step by step

`Compiler.PreparesTo` and `Compiler.CompilesTo` say from which plans, columns and writes the statements
of a query are put together, and which names of temporary tables are taken for them.  There is one
constructor for each way, with all that was checked on it.  Every successful run of the compiler is
one of them (`Compiler.compilesTo_of_compile`).
-/

namespace GraphSql

open Query (Loop Matching Projection WithProjection)
open Relational (BlockVariable Statement Write)

namespace Compiler

/-- The name of the `k`-th temporary table. -/
def tempAt (c : Compiler) (k : Nat) : String := Relational.tempName c.tempStart (c.tempSuffix k)

/-- A query that ends in a projection is prepared: `k` names have been taken before, and the last
argument counts those that have been taken after it. -/
inductive PreparesTo (c : Compiler) (k : Nat) (q : Query) : Prepared → Nat → Prop
  | plain {ms : List Matching} {p : Projection} {plan : Plan} : q.plain? = some (ms, p) →
      Plan.ofClauses c.schema [] ms p = .ok plan → PreparesTo c k q { final := plan } k
  | staged {ms : List Matching} {w : WithProjection} {p : Projection} {first final : Plan} :
      q.staged? = some (ms, w, p) → Plan.ofClauses c.schema [] ms w.toProjection = .ok first →
      Plan.ofClauses c.schema [(first.firstName, first.relation (c.tempAt (k + 1)))]
        [.reading first.firstName w.condition] (finalProjection w p) = .ok final →
      PreparesTo c k q { setup := [.createTemp (c.tempAt (k + 1)) first.select], final } (k + 1)

/-- The last clause of a query is a loop, and the clauses before it form a query of their own. -/
def EndsInLoop (q : Query) (l : Loop) (before : Query) : Prop :=
  q.getLast? = some (.looping l) ∧ Query.beforeLoop? q.dropLast = some before

/-- The elements of a list that is written out. -/
def elementsOf? (l : Loop) : Option (List Value) :=
  match l.source with
  | .list es => Query.Expr.values? es
  | _ => none

/-- What the variables stand for when a loop over a list that is written out comes to `v`. -/
def unrolledEnv (l : Loop) (columns : List (String × ResultColumn)) (rows : Option String)
    (v : Value) : LoopEnv :=
  { name := l.name, key := {}, element := some v, columns, rows }

/-- What the variables stand for in the block of a loop over what the column `source` holds. -/
def blockEnv (l : Loop) (columns : List (String × ResultColumn)) (source : ResultColumn) : LoopEnv :=
  { name := l.name, key := source.elementKey (source.type.getD .text), element := none, columns }

/-- The variables of the block of a loop over what the column `source` holds. -/
def blockVariables (l : Loop) (source : ResultColumn) (columns : List (String × ResultColumn)) :
    List BlockVariable :=
  { name := l.name, type := source.type.getD .text, column := source.name
    unnested := source.isList } ::
    columns.map fun (n, col) => { name := n, type := col.type.getD .bigint, column := col.name }

/-- A query is compiled to statements: `k` names have been taken before, and the last argument counts
those that have been taken after it.  A loop over a list that is written out reads no rows
(`unrolled`) or those of the query before it (`unrolledRows`); a loop over a list that this query
returns becomes a block (`iterated`). -/
inductive CompilesTo (c : Compiler) (k : Nat) (q : Query) : List Statement → Nat → Prop
  | prepared {p : Prepared} {k' : Nat} : q.shape ≠ .loop →
      (c.prepare q).run.run k = (.ok p, k') → CompilesTo c k q p.statements k'
  | unrolled {l : Loop} {q' : Query} {before : Prepared} {k' : Nat}
      {columns : List (String × ResultColumn)} {elements : List Value} {writes : List (List Write)} :
      q.shape = .loop → EndsInLoop q l q' →
      (c.prepare q').run.run k = (.ok before, k') →
      before.final.outputs l.outerNames = .ok columns → columns = [] ∨ elements = [] →
      elements.mapM (fun v => (unrolledEnv l columns none v).writes c.schema l.actions) = .ok writes →
      elementsOf? l = some elements →
      CompilesTo c k q (writes.flatten.map .write) k'
  | unrolledRows {l : Loop} {q' : Query} {before : Prepared} {k' : Nat}
      {columns : List (String × ResultColumn)} {elements : List Value} {writes : List (List Write)} :
      q.shape = .loop → EndsInLoop q l q' →
      (c.prepare q').run.run k = (.ok before, k') →
      before.final.outputs l.outerNames = .ok columns → columns ≠ [] → elements ≠ [] →
      elements.mapM (fun v => (unrolledEnv l columns (c.tempAt (k' + 1)) v).writes c.schema
        l.actions) = .ok writes →
      elementsOf? l = some elements →
      CompilesTo c k q (before.setup ++ .createTemp (c.tempAt (k' + 1)) before.final.select ::
        writes.flatten.map .write) (k' + 1)
  | iterated {l : Loop} {q' : Query} {before : Prepared} {k' : Nat}
      {columns : List (String × ResultColumn)} {name : String} {source : ResultColumn}
      {body : List Write} : q.shape = .loop → EndsInLoop q l q' →
      (c.prepare q').run.run k = (.ok before, k') →
      before.final.outputs l.outerNames = .ok columns → before.final.output? name = some source →
      (blockEnv l columns source).writes c.schema l.actions = .ok body → l.source = .var name →
      source.origin.map Origin.table ≠ some Schema.edgesTable →
      CompilesTo c k q (before.setup ++
        [.block { declared := blockVariables l source columns
                  source := before.final.select
                  body }]) k'

variable {c : Compiler} {k k' : Nat}

/-- The statements of an unrolled loop are the writes of its elements. -/
theorem exists_writes_of_mem {f : Value → Except Error (List Write)} {elements : List Value}
    {writes : List (List Write)} (h : elements.mapM f = .ok writes) {s : Statement}
    (hs : s ∈ writes.flatten.map .write) :
    ∃ v ∈ elements, ∃ ws w, f v = .ok ws ∧ w ∈ ws ∧ s = .write w := by
  obtain ⟨w, hw, rfl⟩ := List.mem_map.mp hs
  obtain ⟨ws, hws, hw⟩ := List.mem_flatten.mp hw
  obtain ⟨v, hmem, hv⟩ := Except.exists_of_mem_mapM h hws
  exact ⟨v, hmem, ws, w, hv, hw, rfl⟩

/-! ## Prepared queries -/

theorem preparesTo_of_prepareStages {q : Query} {ms : List Matching} {w : WithProjection}
    {p : Projection} {prepared : Prepared} (hq : q.staged? = some (ms, w, p))
    (h : (c.prepareStages ms w p).run.run k = (.ok prepared, k')) :
    c.PreparesTo k q prepared k' := by
  unfold prepareStages at h
  split at h
  · cases h
  · obtain ⟨first, hfirst, h⟩ := run_plan_bind_eq_ok.mp h
    obtain ⟨table, k₁, htable, h⟩ := Compile.run_bind_eq_ok.mp h
    cases htable
    obtain ⟨final, hfinal, h⟩ := run_plan_bind_eq_ok.mp h
    cases h
    exact .staged hq hfirst hfinal

theorem preparesTo_of_prepare {q : Query} {prepared : Prepared}
    (h : (c.prepare q).run.run k = (.ok prepared, k')) : c.PreparesTo k q prepared k' := by
  unfold prepare at h
  split at h
  · unfold prepareStaged at h
    split at h
    · rename_i hq
      exact preparesTo_of_prepareStages hq h
    · cases h
  · cases h
  · split at h
    · rename_i hq
      obtain ⟨plan, hplan, h⟩ := run_plan_bind_eq_ok.mp h
      cases h
      exact .plain hq hplan
    · cases h

/-- A query in two stages is prepared by the plans of both. -/
theorem PreparesTo.stages {q : Query} {ms : List Matching} {w : WithProjection} {p : Projection}
    {prepared : Prepared} (h : c.PreparesTo k q prepared k') (hq : q.staged? = some (ms, w, p)) :
    ∃ first final, Plan.ofClauses c.schema [] ms w.toProjection = .ok first ∧
      Plan.ofClauses c.schema [(first.firstName, first.relation (c.tempAt (k + 1)))]
        [.reading first.firstName w.condition] (finalProjection w p) = .ok final ∧
      prepared = { setup := [.createTemp (c.tempAt (k + 1)) first.select], final } := by
  cases h with
  | plain hplain =>
    rw [Query.plain?_of_staged? hq] at hplain
    cases hplain
  | @staged _ _ _ first final hq' hfirst hfinal =>
    cases hq.symm.trans hq'
    exact ⟨first, final, hfirst, hfinal, rfl⟩

/-! ## Loops -/

section Loops

variable {q q' : Query} {l : Loop} {before : Prepared} {columns : List (String × ResultColumn)}
  {statements : List Statement} {k₁ : Nat}

theorem compilesTo_of_unroll {elements : List Value} (hq : q.shape = .loop)
    (hl : EndsInLoop q l q') (helements : elementsOf? l = some elements)
    (hbefore : (c.prepare q').run.run k = (.ok before, k₁))
    (hcolumns : before.final.outputs l.outerNames = .ok columns)
    (h : (c.unroll before columns l elements).run.run k₁ = (.ok statements, k')) :
    c.CompilesTo k q statements k' := by
  unfold unroll at h
  split at h
  · rename_i hempty
    have hempty : columns = [] ∨ elements = [] := by simpa using hempty
    obtain ⟨_, _, hnone, hrest⟩ := Compile.run_bind_eq_ok.mp h
    cases hnone
    obtain ⟨writes, hwrites, hstatements⟩ := Compile.run_raise_bind_eq_ok.mp hrest
    cases hstatements
    exact .unrolled hq hl hbefore hcolumns hempty hwrites helements
  · rename_i hempty
    have hempty : columns ≠ [] ∧ elements ≠ [] := by simpa using hempty
    obtain ⟨table, k₂, htable, hrest⟩ := Compile.run_bind_eq_ok.mp h
    cases htable
    obtain ⟨_, _, hrows, hrest⟩ := Compile.run_bind_eq_ok.mp hrest
    cases hrows
    obtain ⟨writes, hwrites, hstatements⟩ := Compile.run_raise_bind_eq_ok.mp hrest
    cases hstatements
    rw [List.append_assoc]
    exact .unrolledRows hq hl hbefore hcolumns hempty.1 hempty.2 hwrites helements

theorem compilesTo_of_iterate {name : String} (hq : q.shape = .loop) (hl : EndsInLoop q l q')
    (hname : l.source = .var name) (hbefore : (c.prepare q').run.run k = (.ok before, k₁))
    (hcolumns : before.final.outputs l.outerNames = .ok columns)
    (h : c.iterate before columns l name = .ok statements) : c.CompilesTo k q statements k₁ := by
  unfold iterate at h
  split at h
  · cases h
  · rename_i source hsource
    split at h
    · cases h
    · rename_i horigin
      obtain ⟨body, hbody, h⟩ := Except.bind_eq_ok.mp h
      cases h
      exact .iterated hq hl hbefore hcolumns hsource hbody hname horigin

theorem compilesTo_of_compileLoop (hq : q.shape = .loop) (hl : EndsInLoop q l q')
    (hbefore : (c.prepare q').run.run k = (.ok before, k₁))
    (h : (c.compileLoop before l).run.run k₁ = (.ok statements, k')) :
    c.CompilesTo k q statements k' := by
  obtain ⟨columns, hcolumns, h⟩ := Compile.run_raise_bind_eq_ok.mp h
  split at h
  · rename_i es hes
    split at h
    · rename_i elements hvalues
      refine compilesTo_of_unroll hq hl ?_ hbefore hcolumns h
      rw [elementsOf?, hes]
      exact hvalues
    · cases h
  · rename_i name hname
    obtain ⟨hiterate, rfl⟩ := Compile.run_raise_eq_ok.mp h
    exact compilesTo_of_iterate hq hl hname hbefore hcolumns hiterate
  · cases h

theorem compilesTo_of_compileLooping (hq : q.shape = .loop)
    (h : (c.compileLooping q).run.run k = (.ok statements, k')) : c.CompilesTo k q statements k' := by
  unfold compileLooping at h
  split at h
  · rename_i l hlast
    split at h
    · cases h
    · split at h
      · cases h
      · split at h
        · cases h
        · rename_i q' hq'
          obtain ⟨before, k₁, hbefore, h⟩ := Compile.run_bind_eq_ok.mp h
          exact compilesTo_of_compileLoop hq ⟨hlast, hq'⟩ hbefore (Compile.run_catching_eq_ok.mp h)
  · cases h

end Loops

/-! ## Texts -/

theorem compilesTo_of_compileQuery {q : Query} {statements : List Statement}
    (h : (c.compileQuery q).run.run k = (.ok statements, k')) : c.CompilesTo k q statements k' := by
  unfold compileQuery at h
  split at h
  · rename_i hq
    exact compilesTo_of_compileLooping hq h
  · rename_i hq
    obtain ⟨p, k₁, hp, h⟩ := Compile.run_bind_eq_ok.mp h
    cases h
    exact .prepared hq hp

/-- **A text that is compiled spells a query that is compiled in one of the listed ways.** -/
theorem compilesTo_of_compile {text : String} {statements : List Statement}
    (h : (c.compile text).run.run k = (.ok statements, k')) :
    ∃ q, Query.parse text = .ok q ∧ c.CompilesTo k q statements k' := by
  obtain ⟨q, hq, h⟩ := Compile.run_ofExcept_bind_eq_ok.mp h
  exact ⟨q, parse_eq_ok hq, compilesTo_of_compileQuery h⟩

end Compiler

end GraphSql
