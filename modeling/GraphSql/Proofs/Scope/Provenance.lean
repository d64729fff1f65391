import GraphSql.Proofs.Compiler.PassThrough
import GraphSql.Proofs.Scope.Conditions

/-!
# What the origin of a column says

An output column with an origin was read from a column of a table.  Its expression is this column, in
calls that collect its values or pick one of them, and the column is marked as a list just when the
outermost call collects (`Relational.Expr.Tells`).  What a scope hands out has this form when the
columns of its derived relations are replaced by what was written into them (`Scope.Tracks`), and a
projection keeps it (`Scope.Tracks.project`): an aggregate passes on the origin of its first argument
and wraps the expression of this argument in its call.
-/

namespace GraphSql

/-! ## Calls over a column -/

namespace Relational

/-- An expression over the column `c` of the source `x`, and whether it is marked as a list.  Behind
the argument that the column stands in, a call may have as many further ones as `more` allows. -/
inductive Expr.Tells (more : Nat → Prop) (x c : String) : Bool → Expr → Prop
  | column : Tells more x c false (.column x c)
  | collect {isList distinct : Bool} {e : Expr} {rest : List Expr} : more rest.length →
      Tells more x c isList e → Tells more x c true (.call Aggregate.collect.sql distinct (e :: rest))
  | pick {a : Aggregate} {isList distinct : Bool} {e : Expr} {rest : List Expr} :
      a = .min ∨ a = .max → more rest.length → Tells more x c isList e →
      Tells more x c false (.call a.sql distinct (e :: rest))

/-- The name `x` is given to the table and to no other source. -/
def Select.Binds (s : Select) (x table : String) : Prop :=
  (∃ source ∈ s.sources, source.name = x ∧ source.table = table) ∧
    ∀ source ∈ s.sources, source.name = x → source.table = table

end Relational

open Relational (Expr)

/-- If a value was read from a column, then its expression is over that column of a source that `binds`
gives to the table, and the mark for lists is right. -/
def TracksTo (more : Nat → Prop) (binds : String → String → Prop) (origin : Option Origin)
    (isList : Bool) (e : Expr) : Prop :=
  ∀ table column, origin = some ⟨table, some column⟩ →
    ∃ x, binds x table ∧ e.Tells more x column isList

theorem tracksTo_none {more : Nat → Prop} {binds : String → String → Prop} {isList : Bool}
    {e : Expr} : TracksTo more binds none isList e := by
  intro _ _ horigin
  cases horigin

theorem functionName_of_ofName? {f : String} {a : Aggregate} (h : Aggregate.ofName? f = some a) :
    functionName f = a.sql := by
  rw [functionName, h]

theorem Relational.Expr.length_mapColumnsAll (f : String → String → Expr) (es : List Expr) :
    (Expr.mapColumnsAll f es).length = es.length := by
  induction es with
  | nil => rfl
  | cons e es ih => exact congrArg (· + 1) ih

/-- If the item is a call of an aggregate, then the call has no more arguments behind the first one
than `more` allows. -/
def Query.ReturnItem.Allowed (more : Nat → Prop) (item : Query.ReturnItem) : Prop :=
  ∀ g distinct e rest, item.expr = .call g distinct (e :: rest) →
    (Aggregate.ofName? g).isSome = true → more rest.length

namespace Scope

variable {select : Relational.Select}

/-! ## What a scope hands out -/

variable {more : Nat → Prop} {binds : String → String → Prop} {f : String → String → Expr}
  {s : Scope}

/-- All that a scope hands out is what its origin says, when the columns are replaced by `f`. -/
structure Tracks (more : Nat → Prop) (binds : String → String → Prop) (f : String → String → Expr)
    (s : Scope) : Prop where
  name {x : String} {r : Resolved} : s.lookupName x = .ok r →
    TracksTo more binds r.origin r.isList (r.expr.mapColumns f)
  property {x key : String} {r : Resolved} : s.lookupProperty x key = .ok r →
    TracksTo more binds r.origin r.isList (r.expr.mapColumns f)
  columns {x scope : String} {c : ResultColumn} : s.VariableColumn x scope c →
    TracksTo more binds c.origin c.isList (c.expr.mapColumns f)

theorem Tracks.resolve (h : s.Tracks more binds f) {e : Query.Expr} {r : Resolved}
    (hr : s.resolve e = .ok r) : TracksTo more binds r.origin r.isList (r.expr.mapColumns f) := by
  rcases operand_eq_ok hr with ⟨x, -, hr⟩ | ⟨x, key, -, hr⟩ | ⟨a, -, rfl⟩
  · exact h.name hr
  · exact h.property hr
  · exact tracksTo_none

/-- A call is compiled argument by argument. -/
theorem compile_call_eq_ok {g : String} {distinct : Bool} {args : List Query.Expr} {a : Expr}
    (h : s.compile (.call g distinct args) = .ok a) :
    ∃ as, s.compileAll args = .ok as ∧ a = .call (functionName g) distinct as := by
  rw [compile] at h
  obtain ⟨as, has, h⟩ := Except.bind_eq_ok.mp h
  cases h
  exact ⟨as, has, rfl⟩

/-- **An aggregate wraps its first argument**, and has the origin of this argument if it collects or
picks values. -/
theorem Tracks.aggregate (h : s.Tracks more binds f) {item : Query.ReturnItem}
    (hitem : item.Allowed more) {g : String} {args : List Query.Expr} {a : Aggregate}
    {argument : Option Resolved} {expr : Expr} (hcall : item.expr.Calls g args)
    (ha : Aggregate.ofName? g = some a) (hargument : args.head?.mapM s.resolve = .ok argument)
    (hcompile : s.compile item.expr = .ok expr) :
    TracksTo more binds (aggregateOrigin a argument) (a = .collect) (expr.mapColumns f) := by
  intro table column horigin
  cases args with
  | nil =>
    cases hargument
    cases a <;> cases horigin
  | cons e rest =>
    obtain ⟨distinct, hexpr⟩ := hcall.resolve_right (fun hstar => by cases hstar.2)
    rw [hexpr] at hcompile
    obtain ⟨r, hr, hargument⟩ := Except.bind_eq_ok.mp hargument
    cases hargument
    obtain ⟨as, has, rfl⟩ := compile_call_eq_ok hcompile
    obtain ⟨b, hb, has⟩ := Except.bind_eq_ok.mp has
    obtain ⟨bs, hbs, has⟩ := Except.bind_eq_ok.mp has
    cases has
    -- the first argument is compiled to what is known about it
    cases hb.symm.trans (compile_of_operand hr)
    have hlength : more (Expr.mapColumnsAll f bs).length := by
      rw [Expr.length_mapColumnsAll, ← (forall₂_of_compileAll hbs).length_eq]
      exact hitem g distinct e rest hexpr (by rw [ha]; rfl)
    have hargument : r.origin = some ⟨table, some column⟩ →
        ∃ x, binds x table ∧ (r.expr.mapColumns f).Tells more x column r.isList :=
      h.resolve hr table column
    rw [functionName_of_ofName? ha]
    cases a with
    | collect =>
      obtain ⟨x, hx, htells⟩ := hargument horigin
      exact ⟨x, hx, .collect hlength htells⟩
    | min =>
      obtain ⟨x, hx, htells⟩ := hargument horigin
      exact ⟨x, hx, .pick (.inl rfl) hlength htells⟩
    | max =>
      obtain ⟨x, hx, htells⟩ := hargument horigin
      exact ⟨x, hx, .pick (.inr rfl) hlength htells⟩
    | count => cases horigin
    | sum => cases horigin
    | avg => cases horigin

theorem Tracks.outputs (h : s.Tracks more binds f) {index : Nat} {item : Query.ReturnItem}
    (hitem : item.Allowed more) {c : ResultColumn} (hc : Outputs s index item c) :
    TracksTo more binds c.origin c.isList (c.expr.mapColumns f) := by
  cases hc with
  | named _ hc => exact h.columns hc
  | property _ hr => exact h.property hr
  | aggregate hcall ha hargument hexpr => exact h.aggregate hitem hcall ha hargument hexpr
  | call => exact tracksTo_none
  | other => exact tracksTo_none

/-- **Projections keep what origins say.** -/
theorem Tracks.project (h : s.Tracks more binds f) {items : List Query.ReturnItem} {p : Projected}
    (hitems : ∀ item ∈ items, item.Allowed more) (hp : s.project items = .ok p) :
    ∀ c ∈ p.columns, TracksTo more binds c.origin c.isList (c.expr.mapColumns f) := by
  intro c hc
  obtain ⟨item, hitem, index, d, taken, hd, rfl⟩ := (exists_outputs_of_project hp).1 c hc
  have htracks := h.outputs (hitems item hitem) hd
  exact htracks

/-! ## Tables of the schema -/

/-- A variable over a table of the schema goes by a source over this table. -/
theorem Introduces.binds_binding (h : s.Introduces) {b : Binding} (hb : b ∈ s.bindings)
    (hselect : select.sources = s.sources) : select.Binds b.name b.table := by
  have hmem : b.entry ∈ s.sources.map Relational.Source.entry :=
    h.perm.mem_iff.mpr (List.mem_map_of_mem hb)
  rw [Relational.Select.Binds, hselect]
  constructor
  · obtain ⟨source, hsource, hentry⟩ := List.mem_map.mp hmem
    obtain ⟨htable, hname⟩ := Prod.mk.inj hentry
    exact ⟨source, hsource, hname, htable⟩
  · intro source hsource hname
    -- the source stands for a binding of the same name
    obtain ⟨d, hd, hentry⟩ := List.mem_map.mp (h.perm.mem_iff.mp (List.mem_map_of_mem hsource))
    obtain ⟨htable, hdname⟩ := Prod.mk.inj hentry
    have hsame : d = b := List.inj_on_of_nodup_map h.nodup hd hb (hdname.trans hname)
    rw [← htable, hsame]

theorem Introduces.binds_node (h : s.Introduces) {x : String} {n : BoundNode}
    (hn : s.node? x = some n) (hselect : select.sources = s.sources) :
    select.Binds x n.source.table := by
  obtain ⟨hmem, rfl⟩ := mem_of_node? hn
  exact h.binds_binding (List.mem_append_left _ (List.mem_map_of_mem hmem)) hselect

theorem Introduces.binds_stored (h : s.Introduces) {x table : String} {columns : List Column}
    (hx : s.stored? x = some (table, columns)) (hselect : select.sources = s.sources) :
    select.Binds x table := by
  rcases stored?_cases hx with ⟨n, labels, hn, hsource⟩ | ⟨-, e, he, rfl, rfl⟩
  · have hbinds := h.binds_node hn hselect
    rw [hsource] at hbinds
    exact hbinds
  · obtain ⟨hmem, rfl⟩ := mem_of_edge? he
    exact h.binds_binding (List.mem_append_right _ (List.mem_map_of_mem hmem)) hselect

/-- **Without derived relations columns are read from where they stand.** -/
theorem Introduces.tracks (h : s.Introduces) (hderived : s.derived = [])
    (hselect : select.sources = s.sources) (more : Nat → Prop) :
    s.Tracks more select.Binds .column where
  name := by
    intro x r hr
    rcases lookupName_eq_ok hr with ⟨n, table, columns, labels, hn, hsource, rfl⟩ | ⟨e, -, rfl⟩ |
      ⟨p, hp, -⟩
    · rintro _ _ ⟨⟩
      have hbinds := h.binds_node hn hselect
      rw [hsource] at hbinds
      exact ⟨x, hbinds, .column⟩
    · rintro _ _ ⟨⟩
    · rw [hderived] at hp
      cases hp
  property := by
    intro x key r hr
    rcases lookupProperty_eq_ok hr with ⟨table, columns, c, hstored, -, rfl⟩ | ⟨p, hp, -⟩
    · rintro _ _ ⟨⟩
      exact ⟨x, h.binds_stored hstored hselect, .column⟩
    · rw [hderived] at hp
      cases hp
  columns := by
    intro x scope c hc
    cases hc with
    | stored hstored =>
      rintro _ _ ⟨⟩
      exact ⟨x, h.binds_stored hstored hselect, .column⟩
    | whole hp =>
      rw [hderived] at hp
      cases hp
    | member hp =>
      rw [hderived] at hp
      cases hp

/-! ## Derived relations -/

/-- **A relation hands on what its columns say**, when they are replaced by what was written into
them. -/
theorem tracks_reading {name : String} {r : Relation}
    (hr : ∀ c ∈ r.columns, TracksTo more binds c.origin c.isList c.expr)
    (hf : ∀ c ∈ r.columns, f name c.name = c.expr) : (reading name r).Tracks more binds f where
  name := by
    intro x resolved hresolved
    obtain ⟨c, hc, rfl⟩ := lookupName_reading_eq_ok hresolved
    rw [ResultColumn.resolved, Expr.mapColumns, hf c (mem_of_key? hc)]
    exact hr c (mem_of_key? hc)
  property := by
    intro x key resolved hresolved
    obtain ⟨c, hc, rfl⟩ := lookupProperty_reading_eq_ok hresolved
    rw [ResultColumn.resolved, Expr.mapColumns, hf c (mem_of_property? hc)]
    exact hr c (mem_of_property? hc)
  columns := by
    intro x scope c hc
    rcases variableColumn_reading_cases hc with ⟨d, hd, rfl⟩ | ⟨d, hd, rfl⟩
    · rw [Expr.mapColumns, hf d (mem_of_whole? hd)]
      exact hr d (mem_of_whole? hd)
    · rw [Expr.mapColumns, hf d (List.mem_of_mem_filter hd)]
      exact hr d (List.mem_of_mem_filter hd)

end Scope

/-! ## Plans -/

namespace Plan

variable {schema : Schema} {more : Nat → Prop} {p : Query.Projection} {plan : Plan}

/-- **In one stage the expression of a column is what its origin says.** -/
theorem tracksTo_of_ofClauses {ms : List Query.Matching} (hitems : ∀ item ∈ p.items, item.Allowed more)
    (h : ofClauses schema [] ms p = .ok plan) :
    ∀ c ∈ plan.projection, TracksTo more plan.select.Binds c.origin c.isList c.expr := by
  obtain ⟨s, projected, compiled, select, hs, hselect, rfl⟩ := ofClauses_eq_ok.mp h
  have hderived := (Scope.stored_of_addPatterns hs).derived_eq_nil
  have htracks := (Scope.introduces_of_addPatterns hs).tracks hderived hselect.sources more
  intro c hc
  have hcolumn := htracks.project hitems hselect.project_eq c hc
  rw [Expr.mapColumns_column] at hcolumn
  exact hcolumn

/-- **In a second stage the same holds of what was written into the columns that it reads.** -/
theorem tracksTo_of_reading {binds : String → String → Prop} {f : String → String → Expr}
    {name : String} {r : Relation} {condition : Option Query.Expr}
    (hr : ∀ c ∈ r.columns, TracksTo more binds c.origin c.isList c.expr)
    (hf : ∀ c ∈ r.columns, f name c.name = c.expr) (hitems : ∀ item ∈ p.items, item.Allowed more)
    (h : ofClauses schema [(name, r)] [.reading name condition] p = .ok plan) :
    ∀ c ∈ plan.projection, TracksTo more binds c.origin c.isList (c.expr.mapColumns f) := by
  obtain ⟨projected, compiled, hcolumns, hselect⟩ := selects_reading h
  rw [hcolumns]
  exact (Scope.tracks_reading hr hf).project hitems hselect.project_eq

end Plan

end GraphSql
