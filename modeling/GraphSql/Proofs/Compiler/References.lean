import GraphSql.Proofs.Compiler.Derivation
import GraphSql.Proofs.Compiler.Writes
import GraphSql.Proofs.Scope.References

/-!
# Scripts without dangling references

The statements of a script are run one after the other, and temporary tables that one of them makes
can be read by those behind it.  A script is grounded (`GroundedScript`) when all its references are,
each statement seeing the temporary tables that were made before it and the places of the query
(`Query.places`).  Every text compiles to a grounded script (`Compiler.groundedScript_of_compile`).
-/

namespace GraphSql

namespace Query

/-- The patterns of the match clauses of a query, with their aliases. -/
def places (q : Query) : List AliasedPattern :=
  (aliasedPatterns 0 ((q.filterMap Clause.matching?).flatMap Matching.patterns)).1

theorem matchings_append {ms : List Matching} {rest : Query}
    (h : rest.filterMap Clause.matching? = []) :
    (ms.map Clause.matching ++ rest).filterMap Clause.matching? = ms := by
  rw [List.filterMap_append, h, List.append_nil, List.filterMap_map]
  exact List.filterMap_some

/-- The match clauses before a loop are kept. -/
theorem matchings_of_beforeLoop? {q q' : Query} (h : beforeLoop? q = some q') :
    q'.filterMap Clause.matching? = q.filterMap Clause.matching? := by
  unfold beforeLoop? at h
  split at h
  · rename_i w hlast
    have hq := List.dropLast_append_getLast? _ hlast
    split at h
    · cases h
      rw [← hq, List.dropLast_concat, List.filterMap_append, List.filterMap_append]
      rfl
    · cases h
      rw [List.filterMap_append]
      exact List.append_nil _
  · split at h
    · cases h
    · cases h
      rw [List.filterMap_append]
      exact List.append_nil _
  · cases h
    rfl

end Query

namespace Relational

open Query (AliasedPattern)

/-- The columns of rows that a value takes are among the given ones. -/
def Operand.TakesFrom (columns : List String) : Operand → Prop
  | .literal _ => True
  | .loopVar _ => True
  | .rowColumn column => column ∈ columns
  | .nodeWith _ _ value => value.TakesFrom columns

/-- The rows that a test reads are in one of the temporary tables, which has the column. -/
def RowTest.Grounded (temps : List (String × List String)) : RowTest → Prop
  | .equals _ value => value.TakesFrom []
  | .idAmong column table => ∃ outputs, (table, outputs) ∈ temps ∧ column ∈ outputs

/-- The rows that a write reads are in one of the temporary tables, which has their columns. -/
def Write.Grounded (temps : List (String × List String)) : Write → Prop
  | .update _ assignments test => (∀ a ∈ assignments, a.2.TakesFrom []) ∧ test.Grounded temps
  | .insertEdge values none => ∀ v ∈ values, v.2.TakesFrom []
  | .insertEdge values (some table) =>
    ∃ outputs, (table, outputs) ∈ temps ∧ ∀ v ∈ values, v.2.TakesFrom outputs

/-- The temporary tables that a statement makes, with their output names. -/
def Statement.created : Statement → List (String × List String)
  | .createTemp table s => [(table, s.outputs)]
  | _ => []

/-- All references of a statement are to what it introduces, with recorded columns. -/
def Statement.Grounded (schema : Schema) (qs : List AliasedPattern) (recorded : Range → List String)
    (temps : List (String × List String)) : Statement → Prop
  | .select s => ∃ range, s.Grounded schema temps qs recorded range
  | .createTemp _ s => ∃ range, s.Grounded schema temps qs recorded range
  | .write w => w.Grounded temps
  | .block b => (∃ range, b.source.Grounded schema temps qs recorded range) ∧
    (∀ v ∈ b.declared, v.column ∈ b.source.outputs) ∧ ∀ w ∈ b.body, w.Grounded []

end Relational

open Query (AliasedPattern)
open Relational (Operand RowTest Statement Write)

/-- Each statement is grounded, behind the temporary tables that were made before it. -/
def GroundedScript (schema : Schema) (qs : List AliasedPattern) (recorded : Range → List String) :
    List (String × List String) → List Statement → Prop
  | _, [] => True
  | temps, s :: rest => s.Grounded schema qs recorded temps ∧
    GroundedScript schema qs recorded (temps ++ s.created) rest

variable {schema : Schema} {qs : List AliasedPattern} {recorded : Range → List String}

theorem groundedScript_append {xs ys : List Statement} :
    ∀ {temps : List (String × List String)}, GroundedScript schema qs recorded temps xs →
      GroundedScript schema qs recorded (temps ++ xs.flatMap Statement.created) ys →
      GroundedScript schema qs recorded temps (xs ++ ys) := by
  induction xs with
  | nil =>
    intro temps _ hy
    simpa using hy
  | cons x xs ih =>
    intro temps hx hy
    refine ⟨hx.1, ih hx.2 ?_⟩
    simpa using hy

/-- Writes make no temporary tables. -/
theorem groundedScript_writes {temps : List (String × List String)} :
    ∀ {ws : List Write}, (∀ w ∈ ws, w.Grounded temps) →
      GroundedScript schema qs recorded temps (ws.map .write)
  | [], _ => trivial
  | w :: ws, h => by
    refine ⟨h w List.mem_cons_self, ?_⟩
    show GroundedScript schema qs recorded (temps ++ []) (ws.map .write)
    rw [List.append_nil]
    exact groundedScript_writes fun v hv => h v (List.mem_cons_of_mem w hv)

/-- A longer record of columns will do as well. -/
theorem GroundedScript.mono {recorded' : Range → List String}
    (hr : ∀ (temps : List (String × List String)) (r : Range)
      (nodes : List (Query.NodePattern × String)) (edges : List Query.AliasedHop) (x : String),
      r.Of schema temps nodes edges x → ∀ c ∈ recorded r, c ∈ recorded' r) :
    ∀ {temps : List (String × List String)} {ss : List Statement},
      GroundedScript schema qs recorded temps ss → GroundedScript schema qs recorded' temps ss
  | _, [], _ => trivial
  | temps, s :: rest, h => by
    refine ⟨?_, GroundedScript.mono hr h.2⟩
    cases s with
    | select s => exact h.1.imp fun range hs => hs.mono (hr temps)
    | createTemp table s => exact h.1.imp fun range hs => hs.mono (hr temps)
    | write w => exact h.1
    | block b => exact ⟨h.1.1.imp fun range hs => hs.mono (hr temps), h.1.2⟩

/-! ## Writes -/

namespace LoopEnv

variable {env : LoopEnv} {temps : List (String × List String)}

/-- The rows that hold the other variables of a loop are in one of the temporary tables, which has the
columns that identify them.  A block keeps them in variables. -/
def Rows (env : LoopEnv) (temps : List (String × List String)) : Prop :=
  env.element = none ∨ env.columns = [] ∨ ∃ table outputs, env.rows = some table ∧
    (table, outputs) ∈ temps ∧ ∀ p ∈ env.columns, p.2.name ∈ outputs

theorem takesFrom_elementAs (type : ColumnType) (columns : List String) :
    (env.elementAs type).TakesFrom columns := by
  unfold elementAs
  split
  · exact trivial
  · exact trivial

theorem takesFrom_value {type : ColumnType} {e : Query.Expr} {o : Operand}
    (h : env.value type e = .ok o) (columns : List String) : o.TakesFrom columns := by
  rcases value_cases h with rfl | ⟨v, rfl⟩
  · exact takesFrom_elementAs type columns
  · exact trivial

theorem mem_of_lookup {x : String} {c : ResultColumn} (h : env.columns.lookup x = some c) :
    (x, c) ∈ env.columns := by
  obtain ⟨before, after, he, -⟩ := List.lookup_eq_some_iff.mp h
  simp [he]

theorem grounded_target (h : env.Rows temps) {x table : String} {test : RowTest}
    (ht : env.target x = .ok (table, test)) : test.Grounded temps := by
  rcases target_cases ht with rfl | ⟨c, hc, rfl⟩
  · exact takesFrom_elementAs _ _
  · have hmem := mem_of_lookup hc
    rcases h with hnone | hnil | ⟨table, outputs, hrows, htable, hcolumns⟩
    · rw [hnone]
      exact trivial
    · rw [hnil] at hmem
      cases hmem
    · split
      · rw [hrows]
        exact ⟨outputs, htable, hcolumns _ hmem⟩
      · exact trivial

theorem takesFrom_idOf {columns : List String} {x : String} {o : Operand}
    (hx : env.element.isSome = true → ∀ c, env.columns.lookup x = some c → c.name ∈ columns)
    (h : env.idOf x = .ok o) : o.TakesFrom columns := by
  rcases idOf_cases h with ⟨-, rfl⟩ | rfl | ⟨c, hc, rfl⟩
  · exact takesFrom_elementAs _ _
  · exact takesFrom_elementAs _ _
  · split
    · rename_i hsome
      exact hx hsome c hc
    · exact trivial

/-- The rows are read just if one of the two nodes is identified by a column of them. -/
theorem grounded_insertEdge (h : env.Rows temps) {p : Query.Pattern} {w : Write}
    (hw : env.insertEdge schema p = .ok w) : w.Grounded temps := by
  obtain ⟨type, -, source, target, sourceId, targetId, properties, -, hsource, htarget, hproperties,
    rfl⟩ := insertEdge_cases hw
  have hvalues : ∀ columns : List String, sourceId.TakesFrom columns → targetId.TakesFrom columns →
      ∀ v ∈ (Schema.edgeSource, sourceId) :: (Schema.edgeTarget, targetId) ::
        (Schema.edgeType, .literal (.text type.name)) :: properties, v.2.TakesFrom columns := by
    intro columns hs ht v hv
    simp only [List.mem_cons] at hv
    rcases hv with rfl | rfl | rfl | hv
    · exact hs
    · exact ht
    · exact trivial
    · obtain ⟨c, -, e, -, hvalue⟩ := hproperties v hv
      exact takesFrom_value hvalue columns
  by_cases hread : (env.element.isSome && [source, target].any fun n =>
      (env.columns.lookup n).isSome) = true
  · rw [rowsFor, if_pos hread]
    obtain ⟨hsome, hany⟩ := Bool.and_eq_true_iff.mp hread
    rcases h with hnone | hnil | ⟨table, outputs, hrows, htable, hcolumns⟩
    · rw [hnone] at hsome
      cases hsome
    · rw [hnil] at hany
      simp at hany
    · rw [hrows]
      have hmem : ∀ x c, env.columns.lookup x = some c → c.name ∈ outputs :=
        fun x c hc => hcolumns _ (mem_of_lookup hc)
      exact ⟨outputs, htable, hvalues outputs (takesFrom_idOf (fun _ => hmem source) hsource)
        (takesFrom_idOf (fun _ => hmem target) htarget)⟩
  · rw [rowsFor, if_neg hread]
    have hmiss : ∀ x ∈ [source, target], env.element.isSome = true →
        ∀ c, env.columns.lookup x = some c → c.name ∈ ([] : List String) := by
      intro x hx hsome c hc
      refine absurd ?_ hread
      rw [hsome, Bool.true_and, List.any_eq_true]
      exact ⟨x, hx, by rw [hc]; rfl⟩
    exact hvalues [] (takesFrom_idOf (hmiss source (by simp)) hsource)
      (takesFrom_idOf (hmiss target (by simp)) htarget)

theorem grounded_writes (h : env.Rows temps) {actions : List Query.Action} {ws : List Write}
    (hws : env.writes schema actions = .ok ws) : ∀ w ∈ ws, w.Grounded temps := by
  intro w hw
  rcases mem_writes hws hw with ⟨items, x, -, -, hw⟩ | ⟨p, -, hw⟩
  · obtain ⟨table, test, columns, assignments, rfl, htarget, -, hassign⟩ := update_cases hw
    refine ⟨fun a ha => ?_, grounded_target h htarget⟩
    obtain ⟨c, -, e, -, hvalue⟩ := hassign a ha
    exact takesFrom_value hvalue []
  · exact grounded_insertEdge h hw

end LoopEnv

/-! ## Queries -/

/-- A query is prepared without dangling references. -/
structure Prepared.Grounded (schema : Schema) (qs : List AliasedPattern) (p : Prepared) :
    Prop where
  setup : GroundedScript schema qs (Range.accepted schema) [] p.setup
  final : ∃ range, p.final.select.Grounded schema (p.setup.flatMap Statement.created) qs
    (Range.accepted schema) range
  outputs : p.final.select.outputs = p.final.projection.map ResultColumn.name

namespace Compiler

open Query (Loop Matching aliasedPatterns)

variable {c : Compiler} {k k' : Nat} {q : Query}

theorem PreparesTo.grounded {p : Prepared} (h : c.PreparesTo k q p k')
    (hschema : c.schema.Complete) : p.Grounded c.schema q.places := by
  cases h with
  | plain hq hplan =>
    rw [Query.places, Query.plain?_eq_some hq, Query.matchings_append rfl]
    exact ⟨trivial, Plan.grounded_ofClauses hschema hplan, Plan.outputs_ofClauses hplan⟩
  | @staged ms w p first final hq hfirst hfinal =>
    rw [Query.places, Query.staged?_eq_some hq, Query.matchings_append rfl]
    have houtputs : (first.relation (c.tempAt (k + 1))).columns.map ResultColumn.name =
        first.select.outputs := (Plan.outputs_ofClauses hfirst).symm
    obtain ⟨range, hrange⟩ := Plan.grounded_ofRelation hfinal
      (aliasedPatterns 0 (ms.flatMap Matching.patterns)).1
    rw [houtputs] at hrange
    exact ⟨⟨Plan.grounded_ofClauses hschema hfirst, trivial⟩, ⟨range, hrange⟩,
      Plan.outputs_ofClauses hfinal⟩

/-! ## Loops -/

/-- What identifies a variable of the query before a loop is an output of that query. -/
theorem mem_outputs {before : Prepared} (hbefore : before.Grounded schema qs) {name : String}
    {d : ResultColumn} (h : before.final.output? name = some d) :
    d.name ∈ before.final.select.outputs := by
  rw [hbefore.outputs]
  exact List.mem_map_of_mem (Scope.mem_of_key? h)

theorem mem_outputs_of_outputs {before : Prepared} (hbefore : before.Grounded schema qs)
    {names : List String} {columns : List (String × ResultColumn)}
    (h : before.final.outputs names = .ok columns) :
    ∀ p ∈ columns, p.2.name ∈ before.final.select.outputs :=
  fun p hp => mem_outputs hbefore (Plan.mem_outputs h p hp).2

theorem EndsInLoop.places {l : Loop} {q' : Query} (h : EndsInLoop q l q') : q'.places = q.places := by
  have hnone : [Query.Clause.looping l].filterMap Query.Clause.matching? = [] := rfl
  rw [Query.places, Query.matchings_of_beforeLoop? h.2, Query.places,
    ← List.dropLast_append_getLast? _ h.1, List.dropLast_concat, List.filterMap_append, hnone,
    List.append_nil]

/-- The writes of a loop that is unrolled read the rows of one of the temporary tables, if any. -/
theorem groundedScript_unrolled {l : Loop} {columns : List (String × ResultColumn)}
    {rows : Option String} {temps : List (String × List String)} {elements : List Value}
    {writes : List (List Write)} (hrows : ∀ v ∈ elements, (unrolledEnv l columns rows v).Rows temps)
    (hwrites : elements.mapM (fun v => (unrolledEnv l columns rows v).writes c.schema l.actions) =
      .ok writes) :
    GroundedScript c.schema qs recorded temps (writes.flatten.map .write) := by
  refine groundedScript_writes fun w hw => ?_
  obtain ⟨ws, hws, hw⟩ := List.mem_flatten.mp hw
  obtain ⟨v, hv, hws⟩ := Except.exists_of_mem_mapM hwrites hws
  exact LoopEnv.grounded_writes (hrows v hv) hws w hw

theorem CompilesTo.grounded {statements : List Statement} (h : c.CompilesTo k q statements k')
    (hschema : c.schema.Complete) :
    GroundedScript c.schema q.places (Range.accepted c.schema) [] statements := by
  have hends {l : Loop} {q' : Query} (h : EndsInLoop q l q') {before : Prepared} {k₁ : Nat}
      (hbefore : (c.prepare q').run.run k = (.ok before, k₁)) :
      before.Grounded c.schema q.places :=
    h.places ▸ (preparesTo_of_prepare hbefore).grounded hschema
  cases h with
  | prepared _ hp =>
    have hp := (preparesTo_of_prepare hp).grounded hschema
    exact groundedScript_append hp.setup ⟨hp.final, trivial⟩
  | unrolled _ hl hbefore hcolumns hempty hwrites =>
    refine groundedScript_unrolled (fun v hv => ?_) hwrites
    rcases hempty with hnil | rfl
    · exact .inr (.inl hnil)
    · cases hv
  | unrolledRows _ hl hbefore hcolumns _ _ hwrites =>
    have hbefore := hends hl hbefore
    refine groundedScript_append hbefore.setup ⟨hbefore.final, ?_⟩
    refine groundedScript_unrolled (fun v _ => .inr (.inr ?_)) hwrites
    exact ⟨_, _, rfl, List.mem_append_right _ List.mem_cons_self,
      mem_outputs_of_outputs hbefore hcolumns⟩
  | iterated _ hl hbefore hcolumns hsource hbody =>
    have hbefore := hends hl hbefore
    refine groundedScript_append hbefore.setup ⟨⟨hbefore.final, fun v hv => ?_, ?_⟩, trivial⟩
    · rcases List.mem_cons.mp hv with rfl | hv
      · exact mem_outputs hbefore hsource
      · obtain ⟨p, hp, rfl⟩ := List.mem_map.mp hv
        exact mem_outputs_of_outputs hbefore hcolumns p hp
    · exact LoopEnv.grounded_writes (.inl rfl) hbody

/-- **No reference of a script dangles.**  In every statement of a text that compiles, each name that
a reference starts with is introduced once and before it is used, and the column is one that is
accepted for what the name ranges over by its place in the query.  This is a column that the schema
gives for its table, or an output name of the stage that its temporary table was made from, as long as
the name does not go by the types of a relationship or the table of all edges has the columns of all
types. -/
theorem groundedScript_of_compile {d : Schema.Declaration}
    (hschema : Schema.build d = .ok c.schema) {text : String} {k k' : Nat}
    {statements : List Statement} (h : (c.compile text).run.run k = (.ok statements, k')) :
    ∃ q, Query.parse text = .ok q ∧
      GroundedScript c.schema q.places (Range.accepted c.schema) [] statements ∧
      (c.schema.CoversTypes →
        GroundedScript c.schema q.places (Range.columns c.schema) [] statements) := by
  have hcomplete := Schema.complete_of_build hschema
  obtain ⟨q, hq, hcompiles⟩ := compilesTo_of_compile h
  have hgrounded := hcompiles.grounded hcomplete
  exact ⟨q, hq, hgrounded, fun hcovers => hgrounded.mono fun _ _ _ _ _ hr =>
    Range.columns_of_accepted hcomplete hcovers hr⟩

/-- A type with a column. -/
def weightDeclaration : Schema.Declaration where
  types := [("T", .text "weight INT")]

/-- The table of all edges has the column of the type, unless its columns are declared otherwise. -/
def weightCompiler (edgeColumns : Option (List Column)) : Compiler where
  schema := Schema.ofEntries [] [⟨"T", [⟨"weight", .int⟩]⟩] none edgeColumns

theorem build_weightDeclaration :
    Schema.build weightDeclaration = .ok (weightCompiler none).schema := by decide +kernel

theorem groundedScript_of_compile_stages :
    ∃ statements k', ((weightCompiler none).compile
        "MATCH (a)-[r:T]->(b) WITH a, collect(r.weight) AS ws WHERE a.id > 1 RETURN a.id, ws").run.run
          0 = (.ok statements, k') ∧ statements.length = 2 ∧
      ∃ q, Query.parse
          "MATCH (a)-[r:T]->(b) WITH a, collect(r.weight) AS ws WHERE a.id > 1 RETURN a.id, ws" =
          .ok q ∧
        GroundedScript (weightCompiler none).schema q.places
          (Range.columns (weightCompiler none).schema) [] statements := by
  have hlength : (((weightCompiler none).compile
      "MATCH (a)-[r:T]->(b) WITH a, collect(r.weight) AS ws WHERE a.id > 1 RETURN a.id, ws").run.run
        0).1.toOption.map List.length = some 2 := by decide +kernel
  have hcovers : (weightCompiler none).schema.CoversTypes := by
    show ∀ t ∈ _, ∀ c ∈ _, _ ∈ _
    decide +kernel
  obtain ⟨statements, hrun, hlength⟩ := Option.map_eq_some_iff.mp hlength
  obtain ⟨k', hrun⟩ := Compile.exists_run_of_toOption hrun
  obtain ⟨q, hq, -, hgrounded⟩ := groundedScript_of_compile build_weightDeclaration hrun
  exact ⟨statements, k', hrun, hlength, q, hq, hgrounded hcovers⟩

/-- The column and the sources of a script that selects one column. -/
def selectedColumn? : List Statement → Option ((String × String) × List (String × String))
  | [.select { items := [⟨.column x c, _⟩], sources, .. }] =>
    some ((x, c), sources.map Relational.Source.entry)
  | _ => none

/-- **The column of a typed edge can dangle**: it is accepted as a column of the type, but read from
the table of all edges, for which the schema does not give it. -/
theorem not_groundedScript_weight :
    ∃ q statements k', Query.parse "MATCH (a)-[r:T]->(b) RETURN r.weight" = .ok q ∧
      ((weightCompiler (some [⟨"note", .text⟩])).compile
        "MATCH (a)-[r:T]->(b) RETURN r.weight").run.run 0 = (.ok statements, k') ∧
      ¬ GroundedScript (weightCompiler (some [⟨"note", .text⟩])).schema q.places
        (Range.columns (weightCompiler (some [⟨"note", .text⟩])).schema) [] statements := by
  have hparse : (Query.parse "MATCH (a)-[r:T]->(b) RETURN r.weight").toOption.isSome = true := by
    decide +kernel
  have hselect : (((weightCompiler (some [⟨"note", .text⟩])).compile
      "MATCH (a)-[r:T]->(b) RETURN r.weight").run.run 0).1.toOption.bind selectedColumn? =
        some (("r", "weight"), [("nodes", "a"), ("edges", "r"), ("nodes", "b")]) := by
    decide +kernel
  have hedges : "weight" ∉
      (weightCompiler (some [⟨"note", .text⟩])).schema.edgeColumns.map Column.name := by
    decide +kernel
  obtain ⟨q, hq⟩ := Option.isSome_iff_exists.mp hparse
  have hq := Except.eq_ok_of_toOption hq
  obtain ⟨statements, hrun, hselect⟩ := Option.bind_eq_some_iff.mp hselect
  obtain ⟨k', hrun⟩ := Compile.exists_run_of_toOption hrun
  refine ⟨q, statements, k', hq, hrun, ?_⟩
  unfold selectedColumn? at hselect
  split at hselect
  · rename_i sources _ _ _ _ _ _
    obtain ⟨⟨rfl, rfl⟩, hsources⟩ : (_ = "r" ∧ _ = "weight") ∧
        sources.map Relational.Source.entry = _ := by simpa using hselect
    rintro ⟨⟨range, hg⟩, -⟩
    obtain ⟨hname, hcolumn⟩ := (hg.references.items _ List.mem_cons_self).1
    obtain ⟨y, hy, hr⟩ := List.mem_map.mp hname
    have htable : y.table = "edges" := by
      have hentry := List.mem_map_of_mem (f := Relational.Source.entry) hy
      rw [hsources, Relational.Source.entry, hr] at hentry
      simpa using hentry
    obtain ⟨hrange, hof⟩ := hg.ranges y hy
    rw [hr] at hof hrange
    rw [htable] at hrange
    revert hof hrange hcolumn
    cases range "r" with
    | nodes => exact fun _ hrange _ => absurd hrange (by decide)
    | labelled e =>
      rintro - - ⟨p, -, -, he⟩
      exact absurd (Schema.mem_of_labelTable he) List.not_mem_nil
    | edges => exact fun hcolumn _ _ => hedges hcolumn
    | typedEdges types => exact fun hcolumn _ _ => hedges hcolumn
    | temp table outputs => exact fun _ _ hof => absurd hof List.not_mem_nil
  · cases hselect

end Compiler

end GraphSql
