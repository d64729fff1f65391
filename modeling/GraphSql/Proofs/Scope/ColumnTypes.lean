import GraphSql.Proofs.Column
import GraphSql.Proofs.Relational.Against
import GraphSql.Proofs.Scope.Conditions
import GraphSql.Proofs.Scope.References

/-!
# Columns, their types and the constants next to them

A scope records columns with types for each of its names (`Scope.typeOf`).  What it records is what its
select statement uses: a constant that stands against a column is written as the type of the column
wants it (`Scope.Selects.against`), and an output column that is just a reference has this
type (`Scope.Typed.project`).

The columns of a name are merged from lists in which the same name can occur again, so that the first
one of its name is found (`Column.Distinct`).
-/

namespace GraphSql

variable {c : Column}

/-! ## Merged columns -/

namespace Column

/-- The type of the column with the given name, letter case apart. -/
def typeOf? (columns : List Column) (name : String) : Option ColumnType :=
  (find? columns name).map Column.type

/-- Every column is the first one of its name. -/
def Distinct (columns : List Column) : Prop := ∀ c ∈ columns, find? columns c.name = some c

variable {columns : List Column}

theorem find?_congr {a b : String} (h : Text.sameName a b = true) :
    find? columns a = find? columns b := by
  have hlower : Text.lower a = Text.lower b := by simpa [Text.sameName] using h
  simp only [find?, Text.sameName, hlower]

theorem distinct_merge (groups : List (List Column)) : Distinct (merge groups) := by
  intro c hc
  have hnames : (lowerNames (merge groups)).Nodup := nodup_distinct groups.flatten
  obtain ⟨d, hfirst, -⟩ := exists_firstNamed hc
  have hfind := find?_eq_some_iff.mpr hfirst
  rw [hfind, List.inj_on_of_nodup_map hnames (List.mem_of_find?_eq_some hfind) hc hfirst.1]

theorem Distinct.typeOf? (h : Distinct columns) (hc : c ∈ columns) :
    typeOf? columns c.name = some c.type := by
  rw [Column.typeOf?, h c hc]
  rfl

end Column

namespace Schema

/-- The columns of tables are merged, and those that identify nodes and edges come first. -/
structure Merged (s : Schema) : Prop where
  nodes : Column.Distinct s.nodeColumns ∧ idColumn ∈ s.nodeColumns
  labels : ∀ e ∈ s.labelTables, Column.Distinct e.columns ∧ idColumn ∈ e.columns
  edges : Column.Distinct s.edgeColumns ∧ ∀ c ∈ coreEdgeColumns, c ∈ s.edgeColumns

theorem merged_of_build {s : Schema} {d : Declaration} (h : build d = .ok s) : s.Merged := by
  have hcore := (complete_of_build h).edges
  obtain ⟨nodes, hnodes, -⟩ := merge_of_build_nodes h
  obtain ⟨edges, hedges, -⟩ := merge_of_build_edges h
  refine ⟨?_, fun e he => ?_, hedges ▸ Column.distinct_merge _, hcore⟩
  · rw [hnodes]
    exact ⟨Column.distinct_merge _, mem_merge_cons mem_distinct_core.2.1⟩
  · obtain ⟨l, -, -, cs, -, hcolumns⟩ := (declared_of_build h).1 e he
    rw [hcolumns]
    exact ⟨Column.distinct_merge _, mem_merge_cons mem_distinct_core.2.2⟩

end Schema

namespace Scope

open Query (NodePattern Hop Pattern Matching Projection aliasedPatterns)
open Relational (Expr Literal)

variable {schema : Schema} {s s' : Scope} {F : String → String → Literal → Prop} {e : Query.Expr}
  {ps : List Pattern} {x : String} {r : Resolved} {a : Expr} {type : Option ColumnType}
  {key : String}

/-! ## Edges and joins -/

/-- Edges have the columns of their types, and sources are joined by comparing columns. -/
structure Linked (schema : Schema) (s : Scope) : Prop where
  edges : ∀ e ∈ s.edges, ∃ types, edgeTypes schema types = .ok (e.columns, e.types)
  sources : ∀ x ∈ s.sources, ∀ e ∈ x.join.conditions, ∃ direction edge a b c d,
    e = (joinConditions direction edge (.column a b) (.column c d)).1 ∨
      e = (joinConditions direction edge (.column a b) (.column c d)).2

theorem expr_of_lookupProperty (h : s.lookupProperty x key = .ok r) :
    ∃ y c, r.expr = .column y c := by
  rcases lookupProperty_eq_ok h with ⟨table, columns, c, -, -, rfl⟩ | ⟨p, -, c, -, rfl⟩
  · exact ⟨x, c.name, rfl⟩
  · exact ⟨p.1, c.name, rfl⟩

theorem Linked.first {p : NodePattern} {n : BoundNode} {isNew : Bool} (hs : s.Linked schema)
    (h : addNode schema s p = .ok (s', n, isNew)) :
    (if isNew then s'.addSource ⟨n.source.table, n.name, .cross⟩ else s').Linked schema := by
  obtain ⟨hedges, hsources, -, -⟩ := addNode_bindings h
  cases isNew with
  | false => exact ⟨hedges ▸ hs.edges, hsources ▸ hs.sources⟩
  | true =>
    refine ⟨hedges ▸ hs.edges, fun x hx => ?_⟩
    rcases List.mem_append.mp hx with hx | hx
    · exact hs.sources x (hsources ▸ hx)
    · obtain rfl := List.mem_singleton.mp hx
      exact fun e he => nomatch he

theorem Linked.hop {source : String} {hop : Hop} (hs : s.Linked schema)
    (step : HopStep schema s source hop) : step.scope.Linked schema := by
  constructor
  · rw [step.edges_eq]
    intro e he
    rcases List.mem_append.mp he with he | he
    · exact hs.edges e he
    · obtain rfl := List.mem_singleton.mp he
      exact ⟨hop.relationship.types, step.edgeTypes_eq⟩
  · obtain ⟨a, b, hsource⟩ := expr_of_lookupProperty step.sourceKey_eq
    obtain ⟨c, d, htarget⟩ := expr_of_lookupProperty step.targetKey_eq
    have hjoin : ∀ e, e = step.conditions.1 ∨ e = step.conditions.2 →
        ∃ direction edge a b c d,
          e = (joinConditions direction edge (.column a b) (.column c d)).1 ∨
            e = (joinConditions direction edge (.column a b) (.column c d)).2 := by
      intro e he
      rw [HopStep.conditions, hsource, htarget] at he
      exact ⟨hop.relationship.direction, step.name, a, b, c, d, he⟩
    rw [step.sources_eq]
    intro x hx e he
    rcases List.mem_append.mp hx with hx | hx
    · exact hs.sources x hx e he
    · refine hjoin e ?_
      unfold HopStep.newSources at hx
      split at hx
      · rcases List.mem_pair.mp hx with rfl | rfl
        · exact .inl (List.mem_singleton.mp he)
        · exact .inr (List.mem_singleton.mp he)
      · obtain rfl := List.mem_singleton.mp hx
        exact List.mem_pair.mp he

theorem linked_of_addPatterns {relations : List (String × Relation)}
    (h : addPatterns schema { relations } ps = .ok s) : s.Linked schema := by
  have hstart : Linked schema { relations } := ⟨by simp, by simp⟩
  exact addPatterns_induction (J := fun s _ => s.Linked schema) (fun _ _ _ _ _ _ hs => hs.first)
    (fun _ _ _ _ _ _ step hs => hs.hop step) (fun _ _ hs => hs) hstart h

/-! ## What a scope records -/

/-- The type that a scope records for a column of a name. -/
def typeOf (s : Scope) (x c : String) : Option ColumnType :=
  (s.stored? x).bind fun r => Column.typeOf? r.2 c

/-- The columns of all names are merged, and those that identify nodes and edges are among them. -/
structure Typed (s : Scope) : Prop where
  stored : s.Stored
  introduces : s.Introduces
  nodes : ∀ n ∈ s.nodes, Column.Distinct n.source.columns ∧ Schema.idColumn ∈ n.source.columns
  edges : ∀ e ∈ s.edges, Column.Distinct e.columns ∧ ∀ c ∈ Schema.coreEdgeColumns, c ∈ e.columns

theorem merged_of_edgeTypes (hschema : schema.Merged) {types spelled : List String}
    {columns : List Column} (h : edgeTypes schema types = .ok (columns, spelled)) :
    Column.Distinct columns ∧ ∀ c ∈ Schema.coreEdgeColumns, c ∈ columns := by
  rcases edgeTypes_cases h with ⟨-, rfl, -⟩ | ⟨-, entries, -, rfl, -⟩
  · exact hschema.edges
  · exact ⟨Column.distinct_merge _, fun c hc => Schema.mem_merge_coreEdgeColumns hc _⟩

theorem typed_of_addPatterns (hschema : schema.Merged) (h : addPatterns schema {} ps = .ok s) :
    s.Typed where
  stored := stored_of_addPatterns h
  introduces := introduces_of_addPatterns h
  nodes n hn := by
    obtain ⟨labels, hsource⟩ := (ranged_of_addPatterns h).nodes n hn
    generalize n.source = source at hsource ⊢
    cases sourceOf_nodeSource hsource with
    | derived hr => cases hr
    | nodes _ => exact hschema.nodes
    | labelled he => exact hschema.labels _ (Schema.mem_of_labelTable he)
  edges e he := by
    obtain ⟨types, htypes⟩ := (linked_of_addPatterns h).edges e he
    exact merged_of_edgeTypes hschema htypes

namespace Typed

variable (hs : s.Typed)

include hs

theorem stored?_of_node {n : BoundNode} (hn : n ∈ s.nodes) :
    s.stored? n.name = some (n.source.table, n.source.columns) := by
  rw [stored?, hs.introduces.node?_of_mem hn]
  dsimp only
  cases hsource : n.source with
  | stored table columns labels => rfl
  | derived r =>
    have hnone := hs.stored.nodes n hn
    rw [hsource] at hnone
    cases hnone

theorem stored?_of_edge {e : BoundEdge} (he : e ∈ s.edges) :
    s.stored? e.name = some (Schema.edgesTable, e.columns) := by
  obtain ⟨hnone, hfound⟩ := hs.introduces.edge?_of_mem he
  rw [stored?, hnone, hfound]
  rfl

theorem distinct {table : String} {columns : List Column} (h : s.stored? x = some (table, columns)) :
    Column.Distinct columns := by
  rcases stored?_cases h with ⟨n, labels, hn, hsource⟩ | ⟨-, e, he, -, rfl⟩
  · have hmem := hs.nodes n (mem_of_node? hn).1
    rw [hsource] at hmem
    exact hmem.1
  · exact (hs.edges e (mem_of_edge? he).1).1

theorem typeOf_of_mem {table : String} {columns : List Column}
    (h : s.stored? x = some (table, columns)) (hc : c ∈ columns) :
    s.typeOf x c.name = some c.type := by
  rw [typeOf, h]
  exact (hs.distinct h).typeOf? hc

theorem typeOf_edge {e : BoundEdge} (he : e ∈ s.edges) (hc : c ∈ Schema.coreEdgeColumns) :
    s.typeOf e.name c.name = some c.type :=
  hs.typeOf_of_mem (hs.stored?_of_edge he) ((hs.edges e he).2 c hc)

/-- What can be referred to has a type. -/
theorem exists_typeOf {c : String} (h : s.Records x c) : ∃ t, s.typeOf x c = some t := by
  obtain ⟨b, hb, rfl, hc⟩ := h
  rcases List.mem_append.mp hb with hb | hb
  · obtain ⟨n, hn, rfl⟩ := List.mem_map.mp hb
    have hmem := hs.nodes n hn
    have hfound := hs.stored?_of_node hn
    have hc : c ∈ n.source.columnNames := hc
    cases hsource : n.source with
    | stored table columns labels =>
      rw [hsource] at hmem hfound hc
      rcases List.mem_cons.mp hc with rfl | hc
      · exact ⟨.bigint, hs.typeOf_of_mem (c := Schema.idColumn) hfound hmem.2⟩
      · obtain ⟨d, hd, rfl⟩ := List.mem_map.mp hc
        exact ⟨d.type, hs.typeOf_of_mem hfound hd⟩
    | derived r =>
      have hnone := hs.stored.nodes n hn
      rw [hsource] at hnone
      cases hnone
  · obtain ⟨e, he, rfl⟩ := List.mem_map.mp hb
    obtain ⟨d, hd, rfl⟩ := List.mem_map.mp hc
    rcases List.mem_append.mp hd with hd | hd
    · exact ⟨d.type, hs.typeOf_edge he hd⟩
    · exact ⟨d.type, hs.typeOf_of_mem (hs.stored?_of_edge he) hd⟩

end Typed

/-! ## Operands -/

/-- A column comes with the type that is recorded for it. -/
def Knows (s : Scope) (e : Expr) (type : Option ColumnType) : Prop :=
  ∀ x c, e = .column x c → ∃ t, s.typeOf x c = some t ∧ type = some t

/-- The constant is written as the type of the column wants it. -/
def Formats (s : Scope) (x c : String) (l : Literal) : Prop :=
  ∃ t v, s.typeOf x c = some t ∧ l = .ofValueAs t v

theorem Typed.lookupProperty (hs : s.Typed) (h : s.lookupProperty x key = .ok r) :
    s.Knows r.expr r.type := by
  rcases lookupProperty_eq_ok h with ⟨table, columns, c, hstored, hc, rfl⟩ | ⟨p, hp, -⟩
  · rintro _ _ ⟨⟩
    exact ⟨c.type, hs.typeOf_of_mem hstored (List.mem_of_find?_eq_some hc), rfl⟩
  · rw [hs.stored.derived_eq_nil] at hp
    cases hp

theorem Typed.lookupName (hs : s.Typed) (h : s.lookupName x = .ok r) : s.Knows r.expr r.type := by
  rcases lookupName_eq_ok h with ⟨n, table, columns, labels, hn, hsource, rfl⟩ | ⟨e, he, rfl⟩ |
    ⟨p, hp, -⟩
  · rintro _ _ ⟨⟩
    obtain ⟨hmem, rfl⟩ := mem_of_node? hn
    have htype := hs.typeOf_of_mem (c := Schema.idColumn) (hs.stored?_of_node hmem)
      (hs.nodes n hmem).2
    exact ⟨.bigint, htype, rfl⟩
  · rintro _ _ ⟨⟩
  · rw [hs.stored.derived_eq_nil] at hp
    cases hp

theorem carries_head : Carries s
    (fun e a => (∀ x c, a = .column x c → (∃ y, e = .var y) ∨ ∃ y key, e = .property (.var y) key) ∧
      (∀ l, a = .literal l → ∃ v, e.value? = some v) ∧ ∀ n, a ≠ .output n)
    (fun _ _ => True) (fun _ _ _ => True) where
  name {x _} hr := by
    refine ⟨fun _ _ _ => .inl ⟨x, rfl⟩, ?_⟩
    rcases lookupName_eq_ok hr with ⟨_, _, _, _, -, -, rfl⟩ | ⟨_, -, rfl⟩ | ⟨_, -, _, -, rfl⟩ <;>
      exact ⟨nofun, nofun⟩
  property {x key _} hr := by
    refine ⟨fun _ _ _ => .inr ⟨x, key, rfl⟩, ?_⟩
    obtain ⟨y, c, hexpr⟩ := expr_of_lookupProperty hr
    rw [hexpr]
    exact ⟨nofun, nofun⟩
  constant hl := ⟨nofun, fun _ _ => hl.exists_value?, nofun⟩
  list _ := ⟨nofun, nofun, nofun⟩
  not _ := ⟨nofun, nofun, nofun⟩
  negate _ _ := ⟨nofun, nofun, nofun⟩
  binary _ _ := ⟨nofun, nofun, nofun⟩
  nullTest _ := ⟨nofun, nofun, nofun⟩
  inList _ _ _ := ⟨nofun, nofun, nofun⟩
  equalsAny _ _ _ := ⟨nofun, nofun, nofun⟩
  compare {op _ _ _ _ _ _} _ _ _ _ _ _ _ _ := by cases op <;> exact ⟨nofun, nofun, nofun⟩
  call _ := ⟨nofun, nofun, nofun⟩
  callStar := ⟨nofun, nofun, nofun⟩
  nil := trivial
  cons _ _ := trivial
  nearNil := trivial
  nearCons _ _ _ := trivial

/-- Only names and properties are compiled to columns, and only literals to constants.  Nothing is
compiled to the name of an output column. -/
theorem compile_head (h : s.compile e = .ok a) :
    (∀ x c, a = .column x c → (∃ y, e = .var y) ∨ ∃ y key, e = .property (.var y) key) ∧
      (∀ l, a = .literal l → ∃ v, e.value? = some v) ∧ ∀ n, a ≠ .output n :=
  carries_head.compile e h

theorem Typed.operand (hs : s.Typed) (h : s.operand e (s.compile e) = .ok r) :
    s.Knows r.expr r.type := by
  intro x c hexpr
  have hcompile := compile_of_operand h
  rcases (compile_head hcompile).1 x c hexpr with ⟨y, rfl⟩ | ⟨y, key, rfl⟩
  · exact hs.lookupName h x c hexpr
  · exact hs.lookupProperty h x c hexpr

/-- **A literal next to a column is written as the column wants it.** -/
theorem faces_of_typed {x b : Expr} (hx : s.Knows x type) (ha : ∀ y c, a = .column y c → a = x)
    (hb : typed e type (s.compile e) = .ok b) : a.Faces s.Formats b := by
  unfold Expr.Faces
  split
  · rename_i y c l
    obtain ⟨t, ht, htype⟩ := hx y c (ha y c rfl).symm
    rcases typed_eq_ok hb with ⟨v, -, hl⟩ | ⟨hnone, hcompile⟩
    · rw [htype] at hl
      exact ⟨t, v, ht, Expr.literal.inj hl⟩
    · obtain ⟨v, hv⟩ := (compile_head hcompile).2.1 l rfl
      rw [hnone] at hv
      cases hv
  · trivial

/-! ## Expressions -/

theorem against_of_lookupProperty (h : s.lookupProperty x key = .ok r) : r.expr.Against F := by
  obtain ⟨y, c, hexpr⟩ := expr_of_lookupProperty h
  rw [hexpr]
  trivial

theorem against_comparison (op : Query.Comparison) {l r : Expr} (hl : l.Against F)
    (hr : r.Against F) (hlr : l.Faces F r) (hrl : r.Faces F l) : (comparison op l r).Against F := by
  cases op with
  | isIn => exact ⟨hl, hr⟩
  | _ => exact ⟨⟨hlr, hrl⟩, hl, hr⟩

theorem against_typed {x : Except Error Expr} (hx : ∀ a, x = .ok a → a.Against F)
    (h : typed e type x = .ok a) : a.Against F := by
  rcases typed_eq_ok h with ⟨v, -, rfl⟩ | ⟨-, h⟩
  · trivial
  · exact hx a h

theorem eq_of_typed_column {x : Expr} (h : typed e type (.ok x) = .ok a) :
    ∀ y c, a = .column y c → a = x := by
  intro y c ha
  rcases typed_eq_ok h with ⟨v, -, rfl⟩ | ⟨-, h⟩
  · cases ha
  · exact (Except.ok.inj h).symm

/-- Next to something with the type of a column, a list is written as this column wants it. -/
theorem Typed.carries_against (hs : s.Typed) : Carries s (fun _ a => a.Against s.Formats)
    (fun _ as => Expr.AgainstAll s.Formats as)
    (fun type _ as => ∀ x, s.Knows x type →
      (∀ a ∈ as, x.Faces s.Formats a) ∧ Expr.AgainstAll s.Formats as) where
  name hr := by
    rcases lookupName_eq_ok hr with ⟨_, _, _, _, -, -, rfl⟩ | ⟨_, -, rfl⟩ | ⟨_, -, _, -, rfl⟩
    · trivial
    · exact ⟨trivial, trivial, trivial, trivial⟩
    · trivial
  property hr := against_of_lookupProperty hr
  constant _ := trivial
  list has := has
  not ha := ha
  negate _ ha := ha
  binary hx hy := ⟨hx, hy⟩
  nullTest ha := ha
  inList h hx hys := by
    obtain ⟨hfaces, hall⟩ := hys _ (hs.operand h)
    exact ⟨hfaces, hx, hall⟩
  equalsAny _ hx hy := ⟨hx, hy⟩
  compare {_ l r x y x' y'} _ _ hleft hright hx' hy' hx hy := by
    have hl : typed l y.type (s.compile l) = .ok x' := compile_of_operand hleft ▸ hx'
    have hr : typed r x.type (s.compile r) = .ok y' := compile_of_operand hright ▸ hy'
    refine against_comparison _ (against_typed ?_ hx') (against_typed ?_ hy') ?_ ?_
    · rintro _ ⟨⟩
      exact hx
    · rintro _ ⟨⟩
      exact hy
    · exact faces_of_typed (hs.operand hleft) (eq_of_typed_column hx') hr
    · exact faces_of_typed (hs.operand hright) (eq_of_typed_column hy') hl
  call has := has
  callStar := ⟨trivial, trivial⟩
  nil := trivial
  cons ha has := ⟨ha, has⟩
  nearNil x _ := ⟨by simp, trivial⟩
  nearCons ha he has x hx := by
    obtain ⟨hfaces, hall⟩ := has x hx
    have hfirst : x.Faces s.Formats _ := faces_of_typed hx (fun _ _ _ => rfl) ha
    exact ⟨List.forall_mem_cons.mpr ⟨hfirst, hfaces⟩, against_typed he ha, hall⟩

/-- **In what a scope compiles, constants next to columns are written as the columns want them.** -/
theorem Typed.against_compile (hs : s.Typed) (e : Query.Expr) (h : s.compile e = .ok a) :
    a.Against s.Formats :=
  hs.carries_against.compile e h

theorem Typed.against_compileAll (hs : s.Typed) (es : List Query.Expr) {as : List Expr}
    (h : s.compileAll es = .ok as) : Expr.AgainstAll s.Formats as :=
  hs.carries_against.compileAll es h

/-! ## Conditions and output columns -/

theorem Typed.against_propertyConditions (hs : s.Typed) {name : String}
    {properties : Option Query.Properties} {cs : List Expr}
    (h : s.propertyConditions name properties = .ok cs) : ∀ c ∈ cs, c.Against s.Formats := by
  intro c hc
  obtain ⟨entry, -, h⟩ := Except.exists_of_mem_mapM h hc
  obtain ⟨column, hcolumn, h⟩ := Except.bind_eq_ok.mp h
  obtain ⟨value, hvalue, h⟩ := Except.bind_eq_ok.mp h
  cases h
  have hfaces : column.expr.Faces s.Formats value :=
    faces_of_typed (hs.lookupProperty hcolumn) (fun _ _ _ => rfl) hvalue
  have hback : value.Faces s.Formats column.expr := by
    obtain ⟨y, d, hexpr⟩ := expr_of_lookupProperty hcolumn
    rw [hexpr]
    cases value <;> trivial
  exact ⟨⟨hfaces, hback⟩, against_of_lookupProperty hcolumn,
    against_typed (fun _ => hs.against_compile entry.2) hvalue⟩

theorem Typed.against_typeConditions (hs : s.Typed) {e : BoundEdge} (he : e ∈ s.edges)
    (types : List String) : ∀ c ∈ typeConditions e.name types, c.Against s.Formats := by
  have hformats : ∀ t, s.Formats e.name Schema.edgeType (.text t) := fun t =>
    ⟨.text, .text t, hs.typeOf_edge (c := ⟨Schema.edgeType, .text⟩) he (by decide), rfl⟩
  intro c hc
  match types with
  | [] => simp [typeConditions] at hc
  | [t] =>
    obtain rfl := List.mem_singleton.mp hc
    exact ⟨⟨hformats t, trivial⟩, trivial, trivial⟩
  | t :: u :: ts =>
    obtain rfl := List.mem_singleton.mp hc
    refine ⟨fun x hx => ?_, trivial, Expr.againstAll_iff.mpr fun x hx => ?_⟩
    · obtain ⟨v, -, rfl⟩ := List.mem_map.mp hx
      exact hformats v
    · obtain ⟨v, -, rfl⟩ := List.mem_map.mp hx
      trivial

/-- The edge of a hop is bound under its alias. -/
theorem exists_edge_of_addPatterns (h : addPatterns schema {} ps = .ok s) {q : Query.AliasedPattern}
    (hq : q ∈ (aliasedPatterns 0 ps).1) {hop : Query.AliasedHop} (hhop : hop ∈ q.hops) :
    ∃ e ∈ s.edges, e.name = hop.edge := by
  have hlinks : s.edges.map BoundEdge.link =
      (aliasedPatterns 0 ps).1.flatMap Query.AliasedPattern.links := (binds_of_addPatterns h).links
  have hplace : hop.edge ∈ q.links.map fun l => l.2.1 := by
    rw [q.map_edge_links]
    exact List.mem_map.mpr ⟨(hop.relationship.name, hop.edge), List.mem_map_of_mem hhop, rfl⟩
  obtain ⟨link, hlink, hname⟩ := List.mem_map.mp hplace
  have hmem : link ∈ s.edges.map BoundEdge.link :=
    hlinks ▸ List.mem_flatMap.mpr ⟨q, hq, hlink⟩
  obtain ⟨e, he, rfl⟩ := List.mem_map.mp hmem
  exact ⟨e, he, hname⟩

theorem Typed.against_conditions (hs : s.Typed) (h : addPatterns schema {} ps = .ok s) :
    ∀ c ∈ s.conditions, c.Against s.Formats := by
  obtain ⟨css, hcss, hconditions⟩ := conditions_of_addPatterns h
  rw [hconditions]
  intro c hc
  obtain ⟨cs, hcs, hc⟩ := List.mem_flatten.mp hc
  obtain ⟨q, hq, hpattern⟩ := Except.exists_of_mem_mapM hcss hcs
  obtain ⟨first, hfirst, hpattern⟩ := Except.bind_eq_ok.mp hpattern
  obtain ⟨hops, hhops, hpattern⟩ := Except.bind_eq_ok.mp hpattern
  cases hpattern
  rcases List.mem_append.mp hc with hc | hc
  · exact hs.against_propertyConditions hfirst c hc
  · obtain ⟨ds, hds, hc⟩ := List.mem_flatten.mp hc
    obtain ⟨hop, hhop, hds⟩ := Except.exists_of_mem_mapM hhops hds
    obtain ⟨node, hnode, hds⟩ := Except.bind_eq_ok.mp hds
    obtain ⟨⟨columns, types⟩, -, hds⟩ := Except.bind_eq_ok.mp hds
    obtain ⟨edge, hedge, hds⟩ := Except.bind_eq_ok.mp hds
    cases hds
    rcases List.mem_append.mp hc with hc | hc
    · rcases List.mem_append.mp hc with hc | hc
      · exact hs.against_propertyConditions hnode c hc
      · obtain ⟨e, he, hname⟩ := exists_edge_of_addPatterns h hq hhop
        exact hs.against_typeConditions he types c (hname ▸ hc)
    · exact hs.against_propertyConditions hedge c hc

theorem against_joinConditions (direction : Query.Direction) (edge a b c d : String) :
    (joinConditions direction edge (.column a b) (.column c d)).1.Against F ∧
      (joinConditions direction edge (.column a b) (.column c d)).2.Against F := by
  cases direction <;>
    simp [joinConditions, Expr.Against, Expr.AgainstAll,
      Expr.Faces]

theorem Linked.against_sources (hs : s.Linked schema) :
    ∀ x ∈ s.sources, ∀ e ∈ x.join.conditions, e.Against F := by
  intro x hx e he
  obtain ⟨direction, edge, a, b, c, d, rfl | rfl⟩ := hs.sources x hx e he
  · exact (against_joinConditions direction edge a b c d).1
  · exact (against_joinConditions direction edge a b c d).2

/-- What is compiled from anything but a name or a property is no column. -/
theorem knows_compile (h : s.compile e = .ok a) (hvar : ∀ y, e ≠ .var y)
    (hproperty : ∀ y key, e ≠ .property (.var y) key) (type : Option ColumnType) :
    s.Knows a type := by
  intro x c ha
  rcases (compile_head h).1 x c ha with ⟨y, he⟩ | ⟨y, key, he⟩
  · exact absurd he (hvar y)
  · exact absurd he (hproperty y key)

theorem Typed.outputs (hs : s.Typed) {index : Nat} {item : Query.ReturnItem} {c : ResultColumn}
    (h : Outputs s index item c) : c.expr.Against s.Formats ∧ s.Knows c.expr c.type := by
  cases h with
  | named _ hc =>
    cases hc with
    | stored hstored hd =>
      refine ⟨trivial, ?_⟩
      rintro _ _ ⟨⟩
      exact ⟨_, hs.typeOf_of_mem hstored hd, rfl⟩
    | whole hp =>
      rw [hs.stored.derived_eq_nil] at hp
      cases hp
    | member hp =>
      rw [hs.stored.derived_eq_nil] at hp
      cases hp
  | property _ hr => exact ⟨against_of_lookupProperty hr, hs.lookupProperty hr⟩
  | aggregate hcall _ _ hexpr =>
    exact ⟨hs.against_compile _ hexpr, knows_compile hexpr hcall.ne_name.1 hcall.ne_name.2 _⟩
  | call hcall _ hexpr =>
    exact ⟨hs.against_compile _ hexpr, knows_compile hexpr hcall.ne_name.1 hcall.ne_name.2 _⟩
  | other hvar hproperty _ hexpr =>
    exact ⟨hs.against_compile _ hexpr, knows_compile hexpr hvar hproperty _⟩

theorem Typed.project (hs : s.Typed) {items : List Query.ReturnItem} {p : Projected}
    (h : s.project items = .ok p) :
    ∀ c ∈ p.columns, c.expr.Against s.Formats ∧ s.Knows c.expr c.type := by
  intro c hc
  obtain ⟨item, -, index, d, taken, hd, rfl⟩ := (exists_outputs_of_project h).1 c hc
  have htyped := hs.outputs hd
  exact htyped

theorem Typed.against_sortKey (hs : s.Typed) {columns : List ResultColumn} {key : Query.SortKey}
    {i : Relational.OrderItem} (h : s.sortKey columns key = .ok i) : i.expr.Against s.Formats := by
  unfold sortKey at h
  split at h
  · cases h
    trivial
  · obtain ⟨a, ha, h⟩ := Except.bind_eq_ok.mp h
    cases h
    exact hs.against_compile _ ha

/-- **The select statement over a scope** has constants of the types that the scope records. -/
theorem Selects.against {conditions : List Query.Expr} {p : Projection} {projected : Projected}
    {compiled : List Expr} {select : Relational.Select}
    (h : s.Selects conditions p projected compiled select) (hs : s.Typed)
    (hpatterns : addPatterns schema {} ps = .ok s) : select.Against s.Formats := by
  have houtputs := hs.project h.project_eq
  constructor
  · rw [h.items]
    intro i hi
    obtain ⟨c, hc, rfl⟩ := List.mem_map.mp hi
    exact (houtputs c hc).1
  · rw [h.sources]
    exact (linked_of_addPatterns hpatterns).against_sources
  · rw [h.conditions]
    intro e he
    rcases List.mem_append.mp he with he | he
    · exact hs.against_conditions hpatterns e he
    · exact Expr.againstAll_iff.mp (hs.against_compileAll conditions h.compileAll_eq) e he
  · intro e he
    obtain ⟨c, hc, rfl⟩ := exists_column_of_mem_keys h.project_eq e (h.mem_keys he)
    exact (houtputs c hc).1
  · intro i hi
    obtain ⟨key, -, h⟩ := Except.exists_of_mem_mapM h.orderBy_eq hi
    exact hs.against_sortKey h
  · intro e he
    obtain ⟨x, -, h⟩ := Except.exists_of_mem_option_mapM h.offset_eq he
    exact hs.against_compile x h
  · intro e he
    obtain ⟨x, -, h⟩ := Except.exists_of_mem_option_mapM h.limit_eq he
    exact hs.against_compile x h

end Scope

end GraphSql
