import GraphSql.Proofs.Compiler.NodeIds

/-!
# Sort keys that are carried over

When a query in two stages has no order of its own, the order of the projection in the middle is
carried over to the final statement.  There its names are looked up anew, first among the output
columns of the final projection and then in the temporary table.  A name still stands for the column
that the projection in the middle gave to it (`Relation.denoted?`) when the final projection gives the
name to nothing else (`Query.Projection.keepsName`), and the name had one meaning only
(`Compiler.sortsByDenoted_of_compile`).
-/

namespace GraphSql

/-! ## What names and sort keys stand for -/

/-- The column that a name stands for behind a projection: its whole value, or else its id. -/
def Relation.denoted? (r : Relation) (x : String) : Option ResultColumn :=
  match r.whole? x with
  | some c => some c
  | none => r.property? x Schema.nodeId

/-- Whether a name does not stand for a whole value and for something with an id at once. -/
def Relation.hasOneMeaning (r : Relation) (x : String) : Bool :=
  (r.whole? x).isNone || (r.property? x Schema.nodeId).isNone

theorem Relation.key?_eq_denoted? {r : Relation} {x : String} (h : r.hasOneMeaning x = true) :
    r.key? x = r.denoted? x := by
  rw [hasOneMeaning, Bool.or_eq_true, Option.isNone_iff_eq_none, Option.isNone_iff_eq_none] at h
  unfold key? denoted?
  rcases h with h | h
  · rw [h]
    cases r.property? x Schema.nodeId with
    | none => rfl
    | some c => rfl
  · rw [h]
    cases r.whole? x with
    | none => rfl
    | some c => rfl

/-- The name that an expression consists of. -/
def Query.Expr.name? : Query.Expr → Option String
  | .var x => some x
  | _ => none

theorem Query.Expr.name?_eq_some {e : Query.Expr} {x : String} (h : e.name? = some x) :
    e = .var x := by
  cases e with
  | var y =>
    cases h
    rfl
  | _ => cases h

/-- Whether a projection gives the name `x` to nothing but what already goes by it. -/
def Query.Projection.keepsName (p : Query.Projection) (x : String) : Bool :=
  p.items.all fun i => i.asName != some x || i.expr.name? == some x

theorem Query.Projection.expr_of_keepsName {p : Query.Projection} {x : String}
    (h : p.keepsName x = true) {item : Query.ReturnItem} (hitem : item ∈ p.items)
    (ha : item.asName = some x) : item.expr = .var x := by
  have htest := List.all_eq_true.mp h item hitem
  rw [ha] at htest
  exact Query.Expr.name?_eq_some (by simpa using htest)

/-- What a statement is sorted by: the name of an output column stands for what this column holds. -/
def Relational.Select.sortedBy (s : Relational.Select) : Relational.Expr → Relational.Expr
  | .output name =>
    match s.items.find? fun i => Text.sameName i.name name with
    | some i => i.expr
    | none => .output name
  | e => e

theorem Relational.Select.sortedBy_output {s : Relational.Select} {columns : List ResultColumn}
    (hs : s.items = columns.map ResultColumn.item) (hdistinct : DistinctColumns columns)
    {c : ResultColumn} (hc : c ∈ columns) : s.sortedBy (.output c.name) = c.expr := by
  obtain ⟨i, hi⟩ : ∃ i, s.items.find? (fun i => Text.sameName i.name c.name) = some i := by
    rw [← Option.isSome_iff_exists, List.find?_isSome, hs]
    exact ⟨c.item, List.mem_map_of_mem hc, by simp [Text.sameName, ResultColumn.item]⟩
  have hmem := List.mem_of_find?_eq_some hi
  rw [hs] at hmem
  obtain ⟨d, hd, rfl⟩ := List.mem_map.mp hmem
  have hname : Text.lower d.name = Text.lower c.name := by
    simpa [Text.sameName, ResultColumn.item] using List.find?_some hi
  have hsame : d = c := List.inj_on_of_nodup_map hdistinct.names hd hc hname
  rw [sortedBy, hi, hsame]
  rfl

/-! ## Sort keys over a temporary table -/

namespace Scope

variable {s : Scope} {name x : String} {r : Relation}

/-- An output column with the whole value of a name comes from an item that gives the name, or from
the name itself. -/
theorem Outputs.asName_or_var {index : Nat} {item : Query.ReturnItem} {c : ResultColumn}
    (h : Outputs s index item c) (hscope : c.scopeName = some x) (hkey : c.key = none) :
    item.asName = some x ∨ item.expr = .var x := by
  cases h with
  | named hitem hc =>
    have hname := hc.scopeName.symm.trans hscope
    cases ha : item.asName with
    | some a =>
      rw [ha] at hname
      exact .inl hname
    | none =>
      rw [ha] at hname
      cases hname
      exact .inr hitem
  | property =>
    cases ha : item.asName with
    | some a =>
      rw [ha] at hscope
      exact .inl hscope
    | none =>
      rw [ha] at hkey
      cases hkey
  | aggregate => exact .inl hscope
  | call => exact .inl hscope
  | other => exact .inl hscope

/-- When the projection keeps a name, the output column of that name is what goes by it before. -/
theorem expr_of_whole? {p : Query.Projection} {projected : Projected}
    (hp : (reading name r).project p.items = .ok projected) (hkeeps : p.keepsName x = true)
    {c : ResultColumn} (hc : Relation.whole? ⟨"", projected.columns⟩ x = some c) :
    ∃ d, r.whole? x = some d ∧ c.expr = .column name d.name := by
  obtain ⟨hmem, hscope, hkey⟩ := Relation.whole?_eq_some hc
  obtain ⟨item, hitem, index, d, taken, hd, rfl⟩ := (exists_outputs_of_project hp).1 c hmem
  have hvar : item.expr = .var x := by
    rcases hd.asName_or_var hscope hkey with ha | he
    · exact Query.Projection.expr_of_keepsName hkeeps hitem ha
    · exact he
  rcases variableColumn_reading_cases (hd.variableColumn hvar) with ⟨e, he, rfl⟩ | ⟨e, he, rfl⟩
  · exact ⟨e, he, rfl⟩
  · obtain ⟨-, -, k, hk⟩ := Relation.mem_properties he
    cases hk.symm.trans hkey

theorem order_of_sortKey {columns : List ResultColumn} {key : Query.SortKey}
    {entry : Relational.OrderItem} (h : s.sortKey columns key = .ok entry) :
    entry.order = key.order := by
  unfold sortKey at h
  split at h
  · cases h
    rfl
  · obtain ⟨e, -, h⟩ := Except.bind_eq_ok.mp h
    cases h
    rfl

/-- **A name that is kept and has one meaning is sorted by the column that it stands for.** -/
theorem sortedBy_of_sortKey {p : Query.Projection} {projected : Projected}
    (hp : (reading name r).project p.items = .ok projected) (hkeeps : p.keepsName x = true)
    (hone : r.hasOneMeaning x = true) {select : Relational.Select}
    (hselect : select.items = projected.columns.map ResultColumn.item) {key : Query.SortKey}
    (hkey : key.expr = .var x) {entry : Relational.OrderItem}
    (h : (reading name r).sortKey projected.columns key = .ok entry) :
    ∃ col, r.denoted? x = some col ∧ select.sortedBy entry.expr = .column name col.name := by
  rw [sortKey, hkey] at h
  split at h
  · rename_i c hc
    cases h
    obtain ⟨d, hd, hexpr⟩ := expr_of_whole? hp hkeeps hc
    refine ⟨d, by rw [Relation.denoted?, hd], ?_⟩
    rw [Relational.Select.sortedBy_output hselect (distinct_project hp)
      (Relation.whole?_eq_some hc).1, hexpr]
  · obtain ⟨e, he, h⟩ := Except.bind_eq_ok.mp h
    cases h
    obtain ⟨resolved, hresolved, rfl⟩ := Except.map_eq_ok.mp he
    obtain ⟨c, hc, rfl⟩ := lookupName_reading_eq_ok hresolved
    exact ⟨c, Relation.key?_eq_denoted? hone ▸ hc, rfl⟩

end Scope

/-! ## Queries in two stages -/

namespace Compiler

open Query (Matching Projection WithProjection)
open Relational (Select Statement)

variable {c : Compiler} {k k' : Nat} {q : Query} {ms : List Matching} {w : WithProjection}
  {p : Projection} {statements : List Statement}

/-- The sort keys of the projection in the middle as the final statement has them: in the same order,
and by the columns that their names stand for. -/
def SortsByDenoted (first : Plan) (table : String) (w : WithProjection) (p : Projection)
    (final : Select) : Prop :=
  List.Forall₂ (fun key entry => entry.order = key.order ∧
    ∀ x, key.expr = .var x → p.keepsName x = true →
      (first.relation table).hasOneMeaning x = true →
      ∃ col, (first.relation table).denoted? x = some col ∧
        final.sortedBy entry.expr = .column first.firstName col.name) w.orderBy final.orderBy

theorem finalProjection_of_unordered (hcondition : w.condition = none) (horder : p.orderBy = []) :
    finalProjection w p = { p with orderBy := w.orderBy } := by
  rw [finalProjection, hcondition, horder]
  rfl

theorem sortsByDenoted_of_ofClauses {schema : Schema} {first final : Plan} {table : String}
    {condition : Option Query.Expr}
    (h : Plan.ofClauses schema [(first.firstName, first.relation table)]
      [.reading first.firstName condition] { p with orderBy := w.orderBy } = .ok final) :
    final.select.sources = [⟨table, first.firstName, .cross⟩] ∧
      SortsByDenoted first table w p final.select := by
  obtain ⟨projected, compiled, -, hselect⟩ := Plan.selects_reading h
  refine ⟨hselect.sources, (Except.forall₂_of_mapM hselect.orderBy_eq).imp fun key entry hentry => ?_⟩
  refine ⟨Scope.order_of_sortKey hentry, fun x hx hkeeps hone => ?_⟩
  exact Scope.sortedBy_of_sortKey hselect.project_eq hkeeps hone hselect.items hx hentry

/-- A query in two stages becomes a temporary table and a statement that reads it. -/
theorem exists_stages_of_compile {text : String} (hq : Query.parse text = .ok q)
    (hparts : q.staged? = some (ms, w, p)) (h : (c.compile text).run.run k = (.ok statements, k')) :
    ∃ first final, Plan.ofClauses c.schema [] ms w.toProjection = .ok first ∧
      Plan.ofClauses c.schema [(first.firstName, first.relation (c.tempAt (k + 1)))]
        [.reading first.firstName w.condition] (finalProjection w p) = .ok final ∧
      statements = [.createTemp (c.tempAt (k + 1)) first.select, .select final.select] := by
  obtain ⟨q₀, hq₀, hcompiles⟩ := compilesTo_of_compile h
  cases hq.symm.trans hq₀
  have hstaged := Query.shape_of_staged? hparts
  cases hcompiles with
  | prepared _ hprepare =>
    obtain ⟨first, final, hfirst, hfinal, rfl⟩ := (preparesTo_of_prepare hprepare).stages hparts
    exact ⟨first, final, hfirst, hfinal, rfl⟩
  | unrolled hloop => cases hstaged.symm.trans hloop
  | unrolledRows hloop => cases hstaged.symm.trans hloop
  | iterated hloop => cases hstaged.symm.trans hloop

/-- The clauses of a text in two stages that is compiled, and the plans of both stages. -/
def stages? (c : Compiler) (text : String) :
    Option ((List Matching × WithProjection × Projection) × Plan × Plan) :=
  (Query.parse text).toOption.bind fun q => q.staged?.bind fun parts =>
    ((c.compile text).run.run 0).1.toOption.bind fun _ =>
      (Plan.ofClauses c.schema [] parts.1 parts.2.1.toProjection).toOption.bind fun first =>
        (Plan.ofClauses c.schema [(first.firstName, first.relation (c.tempAt 1))]
          [.reading first.firstName parts.2.1.condition]
          (finalProjection parts.2.1 parts.2.2)).toOption.map fun final => (parts, first, final)

theorem exists_run_of_stages? {text : String} {first final : Plan}
    (h : c.stages? text = some ((ms, w, p), first, final)) :
    ∃ q k', Query.parse text = .ok q ∧ q.staged? = some (ms, w, p) ∧
      Plan.ofClauses c.schema [] ms w.toProjection = .ok first ∧
      (c.compile text).run.run 0 =
        (.ok [.createTemp (c.tempAt 1) first.select, .select final.select], k') := by
  obtain ⟨q, hq, h⟩ := Option.bind_eq_some_iff.mp h
  obtain ⟨parts, hparts, h⟩ := Option.bind_eq_some_iff.mp h
  obtain ⟨statements, hrun, h⟩ := Option.bind_eq_some_iff.mp h
  obtain ⟨first₁, hfirst, h⟩ := Option.bind_eq_some_iff.mp h
  obtain ⟨final₁, hfinal, h⟩ := Option.map_eq_some_iff.mp h
  cases h
  have hq := Except.eq_ok_of_toOption hq
  have hfirst := Except.eq_ok_of_toOption hfirst
  obtain ⟨k', hrun⟩ := Compile.exists_run_of_toOption hrun
  obtain ⟨first₂, final₂, hfirst', hfinal', hstatements⟩ := exists_stages_of_compile hq hparts hrun
  cases hfirst.symm.trans hfirst'
  cases (Except.eq_ok_of_toOption hfinal).symm.trans hfinal'
  exact ⟨q, k', hq, hparts, hfirst, hstatements ▸ hrun⟩

/-- **The order of a projection in the middle is carried over.**  A query in two stages, without a
condition between them and without an order of its own, becomes a temporary table and a statement
that reads it.  For each sort key of the projection in the middle this statement has one of the same
direction, and a bare name is sorted by the column of the temporary table that it stands for, unless
the final projection gives the name to something else or the name had two meanings. -/
theorem sortsByDenoted_of_compile {text : String} (hq : Query.parse text = .ok q)
    (hparts : q.staged? = some (ms, w, p)) (hcondition : w.condition = none)
    (horder : p.orderBy = []) (h : (c.compile text).run.run k = (.ok statements, k')) :
    ∃ first table final, Plan.ofClauses c.schema [] ms w.toProjection = .ok first ∧
      statements = [.createTemp table first.select, .select final] ∧
      final.sources = [⟨table, first.firstName, .cross⟩] ∧ SortsByDenoted first table w p final := by
  obtain ⟨first, final, hfirst, hfinal, hstatements⟩ := exists_stages_of_compile hq hparts h
  rw [finalProjection_of_unordered hcondition horder] at hfinal
  obtain ⟨hsources, hsorts⟩ := sortsByDenoted_of_ofClauses hfinal
  exact ⟨first, c.tempAt (k + 1), final.select, hfirst, hstatements, hsources, hsorts⟩

/-- An order by two names, of which the result keeps one. -/
def yearsText : String :=
  "MATCH (n:Person) WITH n.name AS a, n.age AS b ORDER BY a DESC, b RETURN b AS years, a"

/-- One sort key is returned and is sorted by its output column, the other one is returned under a new
name and is read from the temporary table. -/
theorem sortsByDenoted_of_compile_renamed :
    ∃ q ms w p statements k', Query.parse yearsText = .ok q ∧
      q.staged? = some (ms, w, p) ∧ w.condition = none ∧ p.orderBy = [] ∧
      (peopleCompiler.compile yearsText).run.run 0 = (.ok statements, k') ∧
      p.keepsName "a" = true ∧ p.keepsName "b" = true ∧
      statements.getLast?.map Statement.render = some ("SELECT n.b AS years, n.a FROM " ++
        "with_temp_00000000000000000000000000000001 n ORDER BY a DESC, n.b ASC;") ∧
      ∃ first table final, Plan.ofClauses peopleCompiler.schema [] ms w.toProjection = .ok first ∧
        statements = [.createTemp table first.select, .select final] ∧
        final.sources = [⟨table, first.firstName, .cross⟩] ∧
        SortsByDenoted first table w p final := by
  have hfacts : ((Query.parse yearsText).toOption.bind fun q => q.staged?.bind fun parts =>
      ((peopleCompiler.compile yearsText).run.run 0).1.toOption.map fun statements =>
        (parts.2.1.condition.isNone && parts.2.2.orderBy.isEmpty,
          parts.2.2.keepsName "a" && parts.2.2.keepsName "b",
          statements.getLast?.map Statement.render)) =
      some (true, true, some ("SELECT n.b AS years, n.a FROM " ++
        "with_temp_00000000000000000000000000000001 n ORDER BY a DESC, n.b ASC;")) := by
    decide +kernel
  obtain ⟨q, hq, hfacts⟩ := Option.bind_eq_some_iff.mp hfacts
  obtain ⟨⟨ms, w, p⟩, hparts, hfacts⟩ := Option.bind_eq_some_iff.mp hfacts
  obtain ⟨statements, hrun, hfacts⟩ := Option.map_eq_some_iff.mp hfacts
  have hq := Except.eq_ok_of_toOption hq
  obtain ⟨k', hrun⟩ := Compile.exists_run_of_toOption hrun
  rw [Prod.mk.injEq, Prod.mk.injEq, Bool.and_eq_true, Bool.and_eq_true, Option.isNone_iff_eq_none,
    List.isEmpty_iff] at hfacts
  obtain ⟨⟨hcondition, horder⟩, ⟨hkeeps, hkeeps'⟩, hlast⟩ := hfacts
  exact ⟨q, ms, w, p, statements, k', hq, hparts, hcondition, horder, hrun, hkeeps, hkeeps', hlast,
    sortsByDenoted_of_compile hq hparts hcondition horder hrun⟩

/-- An order by a name that the result gives to another value. -/
def capturedText : String :=
  "MATCH (n:Person) WITH n.name AS a, n.age AS b ORDER BY a RETURN b AS a"

/-- A name that the final projection gives to another value is captured: the final statement is
sorted by the other column. -/
theorem sortedBy_ne_denoted_of_renamed :
    ∃ q ms w p first col table final entry k', Query.parse capturedText = .ok q ∧
      q.staged? = some (ms, w, p) ∧ w.condition = none ∧ p.orderBy = [] ∧
      w.orderBy.map (fun key => key.expr.name?) = [some "a"] ∧
      Plan.ofClauses peopleCompiler.schema [] ms w.toProjection = .ok first ∧
      (peopleCompiler.compile capturedText).run.run 0 =
        (.ok [.createTemp table first.select, .select final], k') ∧
      (first.relation table).denoted? "a" = some col ∧ final.orderBy = [entry] ∧
      (final.sortedBy entry.expr).render = "n.b" ∧
      final.sortedBy entry.expr ≠ .column first.firstName col.name := by
  have hfacts : ((peopleCompiler.stages? capturedText).bind fun t =>
      ((t.2.1.relation (peopleCompiler.tempAt 1)).denoted? "a").map fun col =>
        (t.1.2.1.condition.isNone && t.1.2.2.orderBy.isEmpty,
          t.1.2.1.orderBy.map (fun key => key.expr.name?),
          (Relational.Expr.column t.2.1.firstName col.name).render,
          t.2.2.select.orderBy.map fun e => (t.2.2.select.sortedBy e.expr).render)) =
      some (true, [some "a"], "n.a", ["n.b"]) := by decide +kernel
  obtain ⟨⟨⟨ms, w, p⟩, first, final⟩, hstages, hfacts⟩ := Option.bind_eq_some_iff.mp hfacts
  obtain ⟨col, hcol, hfacts⟩ := Option.map_eq_some_iff.mp hfacts
  obtain ⟨q, k', hq, hparts, hfirst, hrun⟩ := exists_run_of_stages? hstages
  rw [Prod.mk.injEq, Prod.mk.injEq, Prod.mk.injEq, Bool.and_eq_true, Option.isNone_iff_eq_none,
    List.isEmpty_iff] at hfacts
  obtain ⟨⟨hcondition, horder⟩, hnames, hcolumn, hsorted⟩ := hfacts
  obtain ⟨entry, hentry, hsorted⟩ := List.map_eq_singleton_iff.mp hsorted
  refine ⟨q, ms, w, p, first, col, _, final.select, entry, k', hq, hparts, hcondition, horder, hnames,
    hfirst, hrun, hcol, hentry, hsorted, fun he => ?_⟩
  rw [he, hcolumn] at hsorted
  exact absurd hsorted (by decide)

end Compiler

end GraphSql
