import GraphSql.Proofs.Scope.ColumnTypes

/-!
# References and table definitions

What a plan refers to is compared with what the table definitions declare (`Plan.Agrees`): every
reference names a column of the table that it is read from, and the type that is recorded for it, and
that constants next to it are written in, is the declared one.

For a node, and for an edge without types, the record is what the table declares.  An edge with types
is read from the table of all edges too, but its columns are merged from those of the types, where the
first declaration of a name wins; the table of all edges has merged the columns of all types, or has
columns of its own.  So the two can differ, in whether there is a column and in its type
(`Plan.agrees_ofClauses`).
-/

namespace GraphSql

open Query (Matching Projection)

/-- The type that the table definition of a source gives for a column. -/
def Schema.declaredType (schema : Schema) (select : Relational.Select) (x c : String) :
    Option ColumnType :=
  (select.sources.find? fun y => y.name == x).bind fun y =>
    (schema.tables.lookup y.table).bind fun columns => Column.typeOf? columns c

/-- The columns are merged from those of the given types, in the spelling of the schema. -/
def Schema.MergesTypes (schema : Schema) (types : List String) (columns : List Column) : Prop :=
  ∃ entries : List Schema.TypeTable, (∀ y ∈ entries, y ∈ schema.typeTables) ∧
    types = entries.map Schema.TypeTable.name ∧
    columns = Column.merge (Schema.coreEdgeColumns :: entries.map Schema.TypeTable.columns)

namespace Plan

variable {schema : Schema} {ms : List Matching} {p : Projection} {plan : Plan}

/-- The same, except that an edge with types has the columns of these types. -/
def acceptedType (schema : Schema) (plan : Plan) (x c : String) : Option ColumnType :=
  match plan.edges.find? fun e => e.name == x && !e.types.isEmpty with
  | some e => Column.typeOf? e.columns c
  | none => schema.declaredType plan.select x c

/-- Every reference has a column with a type, an output column that is just a reference records this
type, and every constant that stands against the reference is written as this type wants it. -/
structure Agrees (typeOf : String → String → Option ColumnType) (plan : Plan) : Prop where
  references : plan.select.All (fun x c => ∃ t, typeOf x c = some t) fun _ => True
  recorded : ∀ d ∈ plan.projection, ∀ x c, d.expr = .column x c →
    ∃ t, typeOf x c = some t ∧ d.type = some t
  constants : plan.select.Against fun x c l =>
    ∃ t v, typeOf x c = some t ∧ l = Relational.Literal.ofValueAs t v

theorem Agrees.mono {typeOf typeOf' : String → String → Option ColumnType} (h : plan.Agrees typeOf)
    (hle : ∀ x c t, typeOf x c = some t → typeOf' x c = some t) : plan.Agrees typeOf' where
  references := h.references.mono (fun x c ⟨t, ht⟩ => ⟨t, hle x c t ht⟩) fun _ _ => trivial
  recorded d hd x c he := by
    obtain ⟨t, ht, htype⟩ := h.recorded d hd x c he
    exact ⟨t, hle x c t ht, htype⟩
  constants := h.constants.mono fun x c l ⟨t, v, ht, hl⟩ => ⟨t, v, hle x c t ht, hl⟩

end Plan

theorem lookup_of_mem {β : Type} {entries : List (String × β)}
    (h : (entries.map Prod.fst).Nodup) {p : String × β} (hp : p ∈ entries) :
    entries.lookup p.1 = some p.2 := by
  obtain ⟨before, after, rfl⟩ := List.append_of_mem hp
  rw [List.lookup_eq_some_iff]
  refine ⟨before, after, rfl, fun q hq => ?_⟩
  rw [List.map_append, List.nodup_append] at h
  have hne := h.2.2 q.1 (List.mem_map_of_mem hq) p.1 List.mem_cons_self
  simpa using hne.symm

namespace Scope

variable {schema : Schema} {s : Scope}

/-- The source of a binding is found by its name. -/
theorem Introduces.exists_source (h : s.Introduces) {b : Binding} (hb : b ∈ s.bindings) :
    ∃ y, (s.sources.find? fun y => y.name == b.name) = some y ∧ y.table = b.table := by
  obtain ⟨y, hy, hentry⟩ := List.mem_map.mp (h.perm.mem_iff.mpr (List.mem_map_of_mem hb))
  have hnodup : (s.sources.map Relational.Source.name).Nodup :=
    h.names_perm.nodup_iff.mpr h.nodup
  have hname : y.name = b.name := congrArg Prod.snd hentry
  refine ⟨y, ?_, congrArg Prod.fst hentry⟩
  cases hfind : s.sources.find? fun y => y.name == b.name with
  | none => exact absurd (by simpa using hname) (List.find?_eq_none.mp hfind y hy)
  | some z =>
    have hz : z.name = b.name := by simpa using List.find?_some hfind
    rw [List.inj_on_of_nodup_map hnodup (List.mem_of_find?_eq_some hfind) hy (hz.trans hname.symm)]

/-- Nodes have the columns of their tables. -/
theorem lookup_nodeSource (hnames : schema.tableNames.Nodup) {name : String} {labels : List String}
    {source : NodeSource} (h : nodeSource schema {} name labels = .ok source) :
    schema.tables.lookup source.table = some source.columns := by
  cases sourceOf_nodeSource h with
  | derived hr => cases hr
  | nodes _ => exact List.lookup_cons_self
  | @labelled e he =>
    refine lookup_of_mem hnames (p := (e.table, e.columns)) ?_
    have hmem := Schema.mem_of_labelTable he
    simpa [Schema.tables] using .inr (.inr (.inl ⟨e, hmem, rfl, rfl⟩))

theorem lookup_edgesTable (schema : Schema) :
    schema.tables.lookup Schema.edgesTable = some schema.edgeColumns := by
  have hne : (Schema.edgesTable == Schema.nodesTable) = false := by decide
  rw [Schema.tables, List.cons_append, List.lookup_cons, hne]
  exact List.lookup_cons_self

/-- An edge without types has the columns of the table of all edges, any other those of its types. -/
theorem mergesTypes_of_edgeTypes {types spelled : List String} {columns : List Column}
    (h : edgeTypes schema types = .ok (columns, spelled)) :
    (spelled = [] ∧ columns = schema.edgeColumns) ∨
      spelled ≠ [] ∧ schema.MergesTypes spelled columns := by
  rcases edgeTypes_cases h with ⟨-, rfl, rfl⟩ | ⟨htypes, entries, hentries, rfl, rfl⟩
  · exact .inl ⟨rfl, rfl⟩
  · refine .inr ⟨?_, entries, fun y hy => ?_, rfl, rfl⟩
    · have hlength : types.length = entries.length := (Except.forall₂_of_mapM hentries).length_eq
      intro hnil
      have hnone : types = [] := by
        rw [List.map_eq_nil_iff.mp hnil] at hlength
        exact List.length_eq_zero_iff.mp hlength
      exact htypes hnone
    · obtain ⟨type, -, hy⟩ := Except.exists_of_mem_mapM hentries hy
      exact Schema.mem_of_typeTable hy

/-- The declared type of a column, found through the source of its name. -/
theorem Introduces.declaredType (h : s.Introduces) {select : Relational.Select}
    (hsources : select.sources = s.sources) {b : Binding} (hb : b ∈ s.bindings)
    {columns : List Column} (hcolumns : schema.tables.lookup b.table = some columns) (c : String) :
    schema.declaredType select b.name c = Column.typeOf? columns c := by
  obtain ⟨y, hy, htable⟩ := h.exists_source hb
  rw [Schema.declaredType, hsources, hy, Option.bind_some, htable, hcolumns, Option.bind_some]

/-- No edge goes by the name of a node. -/
theorem Introduces.find?_typed_node (h : s.Introduces) {n : BoundNode} (hn : n ∈ s.nodes) :
    (s.edges.find? fun e => e.name == n.name && !e.types.isEmpty) = none := by
  refine List.find?_eq_none.mpr fun e he hname => ?_
  rw [Bool.and_eq_true] at hname
  have hname : e.name = n.name := by simpa using hname.1
  have hnone := (h.edge?_of_mem he).1
  rw [hname, h.node?_of_mem hn] at hnone
  cases hnone

/-- An edge is the only one of its name. -/
theorem Introduces.find?_typed_edge (h : s.Introduces) {e : BoundEdge} (he : e ∈ s.edges) :
    (s.edges.find? fun d => d.name == e.name && !d.types.isEmpty) =
      if e.types.isEmpty then none else some e := by
  have hsame : ∀ d ∈ s.edges, (d.name == e.name && !d.types.isEmpty) = true → d = e := by
    intro d hd hname
    rw [Bool.and_eq_true] at hname
    have hname : d.name = e.name := by simpa using hname.1
    have hfound := (h.edge?_of_mem hd).2
    rw [hname, (h.edge?_of_mem he).2] at hfound
    exact (Option.some.inj hfound).symm
  cases hfind : s.edges.find? fun d => d.name == e.name && !d.types.isEmpty with
  | none =>
    have hempty := List.find?_eq_none.mp hfind e he
    rw [if_pos (by simpa using hempty)]
  | some d =>
    have hd := List.find?_some hfind
    obtain rfl := hsame d (List.mem_of_find?_eq_some hfind) hd
    rw [Bool.and_eq_true] at hd
    rw [if_neg (by simpa using hd.2)]

/-- **What a scope records is what is accepted.** -/
theorem Typed.acceptedType (hs : s.Typed) (hnames : schema.tableNames.Nodup)
    {ps : List Query.Pattern} (hpatterns : addPatterns schema {} ps = .ok s) {plan : Plan}
    (hedges : plan.edges = s.edges) (hsources : plan.select.sources = s.sources) {x c : String}
    {t : ColumnType} (h : s.typeOf x c = some t) : plan.acceptedType schema x c = some t := by
  obtain ⟨⟨table, columns⟩, hstored, htype⟩ := Option.bind_eq_some_iff.mp h
  rw [Plan.acceptedType, hedges]
  cases hnode : s.node? x with
  | some n =>
    obtain ⟨hn, rfl⟩ := mem_of_node? hnode
    obtain ⟨labels, hsource⟩ := (ranged_of_addPatterns hpatterns).nodes n hn
    rw [hs.stored?_of_node hn] at hstored
    cases hstored
    rw [hs.introduces.find?_typed_node hn]
    have hb : n.binding ∈ s.bindings := List.mem_append_left _ (List.mem_map_of_mem hn)
    exact (hs.introduces.declaredType hsources hb (lookup_nodeSource hnames hsource) c).trans htype
  | none =>
    have hfound := hstored
    rw [stored?, hnode] at hfound
    obtain ⟨e, hedge, -⟩ := Option.map_eq_some_iff.mp hfound
    obtain ⟨he, rfl⟩ := mem_of_edge? hedge
    rw [hs.stored?_of_edge he] at hstored
    cases hstored
    rw [hs.introduces.find?_typed_edge he]
    obtain ⟨types, htypes⟩ := (linked_of_addPatterns hpatterns).edges e he
    rcases mergesTypes_of_edgeTypes htypes with ⟨hnil, hcolumns⟩ | ⟨hne, -⟩
    · rw [hnil, if_pos (by rfl)]
      have hb : e.binding ∈ s.bindings := List.mem_append_right _ (List.mem_map_of_mem he)
      rw [hcolumns] at htype
      exact (hs.introduces.declaredType hsources hb (lookup_edgesTable schema) c).trans htype
    · rw [if_neg (by simpa using hne)]
      exact htype

end Scope

namespace Plan

variable {schema : Schema} {ms : List Matching} {p : Projection} {plan : Plan}

/-- An edge whose columns are declared alike for the table of all edges. -/
def Declares (schema : Schema) (e : BoundEdge) : Prop :=
  ∀ c ∈ e.columns, Column.typeOf? schema.edgeColumns c.name = some c.type

theorem declaredType_of_accepted (h : Plan.ofClauses schema [] ms p = .ok plan)
    (hdeclares : ∀ e ∈ plan.edges, e.types ≠ [] → Declares schema e) {x c : String} {t : ColumnType}
    (ht : plan.acceptedType schema x c = some t) :
    schema.declaredType plan.select x c = some t := by
  obtain ⟨s, projected, compiled, select, hs, hselect, rfl⟩ := ofClauses_eq_ok.mp h
  unfold acceptedType at ht
  split at ht
  · rename_i e hfind
    have hname := List.find?_some hfind
    rw [Bool.and_eq_true] at hname
    have hx : e.name = x := by simpa using hname.1
    subst hx
    have he : e ∈ s.edges := List.mem_of_find?_eq_some hfind
    have hb : e.binding ∈ s.bindings := List.mem_append_right _ (List.mem_map_of_mem he)
    obtain ⟨d, hd, rfl⟩ := Option.map_eq_some_iff.mp ht
    have hsame : Text.sameName d.name c = true := by
      unfold Column.find? at hd
      simpa using List.find?_some hd
    have htype := hdeclares e he (by simpa using hname.2) d (List.mem_of_find?_eq_some hd)
    rw [Column.typeOf?, Column.find?_congr hsame] at htype
    exact ((Scope.introduces_of_addPatterns hs).declaredType hselect.sources hb
      (Scope.lookup_edgesTable schema) c).trans htype
  · exact ht

theorem agrees_acceptedType (hschema : schema.Complete) (hmerged : schema.Merged)
    (hnames : schema.tableNames.Nodup) (h : Plan.ofClauses schema [] ms p = .ok plan) :
    plan.Agrees (plan.acceptedType schema) := by
  obtain ⟨s, projected, compiled, select, hs, hselect, rfl⟩ := ofClauses_eq_ok.mp h
  have htyped := Scope.typed_of_addPatterns hmerged hs
  have hgrounded := Scope.grounded_of_addPatterns hschema hs
  have hrecorded : Agrees s.typeOf
      ⟨s.nodes, s.edges, conjunction (ms.filterMap Matching.condition), projected.columns, select⟩ := by
    refine ⟨?_, fun d hd => (htyped.project hselect.project_eq d hd).2, hselect.against htyped hs⟩
    exact (references_of_selects hgrounded.conditions hgrounded.sources hselect).mono
      (fun x c hx => htyped.exists_typeOf hx) fun _ _ => trivial
  exact hrecorded.mono fun x c t ht => htyped.acceptedType hnames hs rfl hselect.sources ht

/-- **References agree with the table definitions**, but for edges with types: these have the columns
of their types, although they are read from the table of all edges. -/
theorem agrees_ofClauses {d : Schema.Declaration} (hschema : Schema.build d = .ok schema)
    (hnames : schema.tableNames.Nodup) (h : Plan.ofClauses schema [] ms p = .ok plan) :
    plan.Agrees (plan.acceptedType schema) ∧
      (∀ e ∈ plan.edges, e.types ≠ [] → schema.MergesTypes e.types e.columns) ∧
      ((∀ e ∈ plan.edges, e.types ≠ [] → Declares schema e) →
        plan.Agrees (schema.declaredType plan.select)) := by
  have hagrees := agrees_acceptedType (Schema.complete_of_build hschema)
    (Schema.merged_of_build hschema) hnames h
  refine ⟨hagrees, ?_, fun hdeclares => hagrees.mono fun x c t => declaredType_of_accepted h hdeclares⟩
  obtain ⟨s, projected, compiled, select, hs, -, rfl⟩ := ofClauses_eq_ok.mp h
  intro e he hne
  obtain ⟨types, htypes⟩ := (Scope.linked_of_addPatterns hs).edges e he
  rcases Scope.mergesTypes_of_edgeTypes htypes with ⟨hnil, -⟩ | ⟨-, hentries⟩
  · exact absurd hnil hne
  · exact hentries

/-- Persons who know each other since some year. -/
def knowsDeclaration : Schema.Declaration where
  labels := [("Person", .text "name TEXT, age INT")]
  types := [("KNOWS", .text "since INT")]

def knowsSchema : Schema :=
  .ofEntries [⟨"Person", [Schema.idColumn, ⟨"name", .text⟩, ⟨"age", .int⟩]⟩]
    [⟨"KNOWS", [⟨"since", .int⟩]⟩] none none

/-- The clause `MATCH (a:Person {name: 'Ann'})-[r:knows]->(b) WHERE r.since IN [2019, '2020']`. -/
def knowsClauses : List Matching :=
  [⟨[⟨{ name := some "a", labels := ["Person"], properties := some [("name", .text "Ann")] },
      [⟨{ name := some "r", types := ["knows"], direction := .outgoing }, { name := some "b" }⟩]⟩],
    some (.compare .isIn (.property (.var "r") "since") (.list [.integer 2019, .text "2020"]))⟩]

theorem agrees_ofClauses_knows :
    ∃ plan, Schema.build knowsDeclaration = .ok knowsSchema ∧ knowsSchema.tableNames.Nodup ∧
      Plan.ofClauses knowsSchema [] knowsClauses { items := [⟨.property (.var "r") "since", none⟩] } =
        .ok plan ∧
      plan.select.body = "SELECT r.since FROM person a JOIN edges r ON r.idl = a.id " ++
        "JOIN nodes b ON b.id = r.idr WHERE a.name = 'Ann' AND r.type = 'KNOWS' AND " ++
        "r.since IN (2019, 2020)" ∧
      plan.Agrees (knowsSchema.declaredType plan.select) := by
  have hbuild : Schema.build knowsDeclaration = .ok knowsSchema := by decide +kernel
  have hnames : knowsSchema.tableNames.Nodup := by decide +kernel
  have hfacts : (Plan.ofClauses knowsSchema [] knowsClauses
      { items := [⟨.property (.var "r") "since", none⟩] }).toOption.map (fun plan =>
        (plan.select.body, plan.edges.map BoundEdge.columns)) =
      some ("SELECT r.since FROM person a JOIN edges r ON r.idl = a.id " ++
        "JOIN nodes b ON b.id = r.idr WHERE a.name = 'Ann' AND r.type = 'KNOWS' AND " ++
        "r.since IN (2019, 2020)", [Schema.coreEdgeColumns ++ [⟨"since", .int⟩]]) := by
    decide +kernel
  obtain ⟨plan, hplan, hfacts⟩ := Option.map_eq_some_iff.mp hfacts
  obtain ⟨hbody, hcolumns⟩ := Prod.mk.inj hfacts
  have hplan := Except.eq_ok_of_toOption hplan
  obtain ⟨-, -, hdeclared⟩ := agrees_ofClauses hbuild hnames hplan
  refine ⟨plan, hbuild, hnames, hplan, hbody, hdeclared fun e he _ c hc => ?_⟩
  have hall : ∀ c ∈ Schema.coreEdgeColumns ++ [⟨"since", .int⟩],
      Column.typeOf? knowsSchema.edgeColumns c.name = some c.type := by decide +kernel
  have hmem : e.columns ∈ plan.edges.map BoundEdge.columns := List.mem_map_of_mem he
  rw [hcolumns] at hmem
  exact hall c (List.mem_singleton.mp hmem ▸ hc)

/-- Two types with a column of the same name: a number for one of them, a text for the other. -/
def driftDeclaration : Schema.Declaration where
  types := [("T", .text "w INT"), ("U", .text "w TEXT")]

def driftSchema : Schema := .ofEntries [] [⟨"T", [⟨"w", .int⟩]⟩, ⟨"U", [⟨"w", .text⟩]⟩] none none

/-- The clause `MATCH (a)-[r:U]->(b) WHERE r.w = 5`. -/
def driftClauses : List Matching :=
  [⟨[⟨{ name := some "a" },
      [⟨{ name := some "r", types := ["U"], direction := .outgoing }, { name := some "b" }⟩]⟩],
    some (.compare .eq (.property (.var "r") "w") (.integer 5))⟩]

/-- The column that an output column is a reference to. -/
def referred? (c : ResultColumn) : Option (String × String) :=
  match c.expr with
  | .column x d => some (x, d)
  | _ => none

theorem referred?_eq_some {c : ResultColumn} {x d : String} (h : referred? c = some (x, d)) :
    c.expr = .column x d := by
  unfold referred? at h
  split at h
  · rename_i y e he
    cases h
    exact he
  · cases h

/-- **The column of a typed edge can have another type than the table that it is read from**: the
number in the query becomes a text for a column that is declared as a number. -/
theorem not_agrees_drift :
    ∃ plan, Schema.build driftDeclaration = .ok driftSchema ∧ driftSchema.tableNames.Nodup ∧
      Plan.ofClauses driftSchema [] driftClauses { items := [⟨.property (.var "r") "w", none⟩] } =
        .ok plan ∧
      plan.select.body = "SELECT r.w FROM nodes a JOIN edges r ON r.idl = a.id " ++
        "JOIN nodes b ON b.id = r.idr WHERE r.type = 'U' AND r.w = '5'" ∧
      driftSchema.declaredType plan.select "r" "w" = some .int ∧
      ¬ plan.Agrees (driftSchema.declaredType plan.select) := by
  have hfacts : (Plan.ofClauses driftSchema [] driftClauses
      { items := [⟨.property (.var "r") "w", none⟩] }).toOption.map (fun plan =>
        (plan.select.body, driftSchema.declaredType plan.select "r" "w")) =
      some ("SELECT r.w FROM nodes a JOIN edges r ON r.idl = a.id " ++
        "JOIN nodes b ON b.id = r.idr WHERE r.type = 'U' AND r.w = '5'", some .int) := by
    decide +kernel
  have houtputs : (Plan.ofClauses driftSchema [] driftClauses
      { items := [⟨.property (.var "r") "w", none⟩] }).toOption.map (fun plan =>
        plan.projection.map fun c => (referred? c, c.type)) =
      some [(some ("r", "w"), some .text)] := by decide +kernel
  obtain ⟨plan, hplan, hfacts⟩ := Option.map_eq_some_iff.mp hfacts
  obtain ⟨hbody, hdeclared⟩ := Prod.mk.inj hfacts
  rw [hplan] at houtputs
  have hcolumns := Option.some.inj houtputs
  refine ⟨plan, by decide +kernel, by decide +kernel, Except.eq_ok_of_toOption hplan, hbody,
    hdeclared, fun hagrees => ?_⟩
  have hmem : (some ("r", "w"), some ColumnType.text) ∈
      plan.projection.map fun c => (referred? c, c.type) := by simp [hcolumns]
  obtain ⟨c, hc, he⟩ := List.mem_map.mp hmem
  obtain ⟨hexpr, htype⟩ := Prod.mk.inj he
  obtain ⟨t, ht, hrecorded⟩ := hagrees.recorded c hc "r" "w" (referred?_eq_some hexpr)
  rw [hdeclared] at ht
  rw [htype, ← ht] at hrecorded
  cases hrecorded

end Plan

end GraphSql
