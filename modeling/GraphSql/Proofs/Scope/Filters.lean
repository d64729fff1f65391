import GraphSql.Proofs.Scope.Conditions

/-!
# The conditions that bindings keep

What a pattern asks for is kept twice: in the list of conditions that the statement is written from,
and with the binding of the node or edge.  A node is bound again by every place that goes by its name,
and an edge once before the node behind it and once more with its own properties, so the two could
drift apart.  They do not.  A place adds the same conditions on both sides (`addNode_filters`), so after
every hop the conditions are a rearrangement of what the bindings keep; each node keeps what is asked at
the places that go by its name, and each edge what its relationship asks (`Scope.Keeps`).

So the conditions of a statement are those of its bindings, followed by those of the match clauses
(`Plan.keepsFilters_of_ofClauses`).
-/

namespace GraphSql

namespace Query

/-- The aliases of the nodes of a pattern, and the properties that they are asked for. -/
def AliasedPattern.asked (q : AliasedPattern) : List (String × Properties) :=
  q.nodes.map fun p => (p.2, p.1.properties.getD [])

/-- What is asked at the places that go by an alias, one place after the other. -/
def askedOf (places : List (String × Properties)) (x : String) : Properties :=
  places.flatMap fun p => if p.1 = x then p.2 else []

theorem askedOf_concat (places : List (String × Properties)) (p : String × Properties)
    (x : String) : askedOf (places ++ [p]) x = askedOf places x ++ if p.1 = x then p.2 else [] := by
  simp [askedOf]

/-- A relationship leads from a place of its pattern to another. -/
theorem ends_of_mem_linksFrom : ∀ {source : String} {hs : List AliasedHop}
    {l : String × String × String}, l ∈ linksFrom source hs →
      l.1 ∈ source :: hs.map AliasedHop.target ∧ l.2.2 ∈ hs.map AliasedHop.target
  | _, [], _, hl => by cases hl
  | source, h :: hs, l, hl => by
    rcases List.mem_cons.mp hl with rfl | hl
    · exact ⟨List.mem_cons_self, List.mem_cons_self⟩
    · obtain ⟨hsource, htarget⟩ := ends_of_mem_linksFrom hl
      exact ⟨List.mem_cons_of_mem source hsource, List.mem_cons_of_mem _ htarget⟩

theorem AliasedPattern.ends_of_mem_links {q : AliasedPattern} {l : String × String × String}
    (hl : l ∈ q.links) :
    l.1 ∈ q.nodePlaces.map Prod.snd ∧ l.2.2 ∈ q.nodePlaces.map Prod.snd := by
  obtain ⟨hsource, htarget⟩ := ends_of_mem_linksFrom hl
  have hplaces : q.nodePlaces.map Prod.snd = q.start :: q.hops.map AliasedHop.target := by
    simp [nodePlaces, Function.comp_def]
  rw [hplaces]
  exact ⟨hsource, List.mem_cons_of_mem _ htarget⟩

end Query

namespace Scope

open Query (NodePattern Hop Pattern Properties AliasedHop AliasedPattern aliasedHops
  aliasedPatterns askedOf askedOf_concat)

variable {schema : Schema} {s s' t : Scope} {places : List (String × Properties)}
  {hops : List AliasedHop} {n : BoundNode} {x : String} {isNew : Bool}

/-! ## What is kept -/

/-- The condition of a property, read in a scope that has grown into `s`. -/
def FilterOf (s : Scope) (x : String) (entry : String × Query.Expr) (c : Relational.Expr) : Prop :=
  ∃ t : Scope, t.Grows s ∧ t.propertyCondition x entry = .ok c

theorem FilterOf.mono (hgrows : s.Grows t) {entry : String × Query.Expr} {c : Relational.Expr}
    (h : s.FilterOf x entry c) : t.FilterOf x entry c := by
  obtain ⟨u, hu, hc⟩ := h
  exact ⟨u, hu.trans hgrows, hc⟩

/-- Without derived relations it does not matter when a property is read. -/
theorem FilterOf.propertyCondition (hs : s.Introduces) (hstored : s.Stored)
    {entry : String × Query.Expr} {c : Relational.Expr} (h : s.FilterOf x entry c) :
    s.propertyCondition x entry = .ok c := by
  obtain ⟨t, ht, hc⟩ := h
  exact ht.propertyCondition hs hstored hc

theorem filterOf_of_propertyConditions (hgrows : t.Grows s) {properties : Option Properties}
    {cs : List Relational.Expr} (h : t.propertyConditions x properties = .ok cs) :
    List.Forall₂ (s.FilterOf x) (properties.getD []) cs :=
  (Except.forall₂_of_mapM h).imp fun _ _ hc => ⟨t, hgrows, hc⟩

/-- An edge keeps the types and the properties that its relationship asks for. -/
structure EdgeOf (schema : Schema) (s : Scope) (h : AliasedHop) (e : BoundEdge) : Prop where
  name : e.name = h.edge
  target : e.target = h.target
  direction : e.direction = h.relationship.direction
  types : edgeTypes schema h.relationship.types = .ok (e.columns, e.types)
  filters : ∃ cs, e.filters = typeConditions e.name e.types ++ cs ∧
    List.Forall₂ (s.FilterOf e.name) (h.relationship.properties.getD []) cs

theorem EdgeOf.mono (hgrows : s.Grows t) {h : AliasedHop} {e : BoundEdge}
    (he : s.EdgeOf schema h e) : t.EdgeOf schema h e where
  name := he.name
  target := he.target
  direction := he.direction
  types := he.types
  filters := he.filters.imp fun _ hcs => ⟨hcs.1, hcs.2.imp fun _ _ hc => hc.mono hgrows⟩

/-- The conditions are a rearrangement of what the bindings keep, and each node keeps what it is
asked for. -/
structure KeepsNodes (s : Scope) (places : List (String × Properties)) : Prop where
  conditions : s.conditions.Perm
    (s.nodes.flatMap BoundNode.filters ++ s.edges.flatMap BoundEdge.filters)
  nodes : ∀ x, List.Forall₂ (s.FilterOf x) (askedOf places x) (s.filtersOf x)

/-- Each edge keeps what its relationship asks for, too. -/
structure Keeps (schema : Schema) (s : Scope) (places : List (String × Properties))
    (hops : List AliasedHop) : Prop extends s.KeepsNodes places where
  edges : List.Forall₂ (s.EdgeOf schema) hops s.edges

/-! ## Nodes -/

/-- **A place adds the same to the conditions and to its node.** -/
theorem KeepsNodes.addNode {p : NodePattern} (hs : s.KeepsNodes places)
    (h : Scope.addNode schema s p = .ok (s', n, isNew)) :
    s'.KeepsNodes (places ++ [(n.name, p.properties.getD [])]) := by
  obtain ⟨hgrows, t, filters, ht, hread, hconditions, hfilters, hnodes⟩ := addNode_filters h
  obtain ⟨hedges, -, -, -⟩ := addNode_bindings h
  constructor
  · have hput : (s'.nodes.flatMap BoundNode.filters).Perm
        (s.nodes.flatMap BoundNode.filters ++ filters) := by
      rw [hnodes]
      exact flatMap_putBy_perm hfilters
    rw [hconditions, hedges]
    refine (hs.conditions.append_right filters).trans ?_
    refine List.Perm.trans ?_ (hput.symm.append_right _)
    -- what is new moves in front of the conditions of the edges
    rw [List.append_assoc, List.append_assoc]
    exact List.perm_append_comm.append_left _
  · intro x
    have hbefore := (hs.nodes x).imp fun _ _ hc => FilterOf.mono hgrows hc
    have hfound : s'.node? x = if n.name = x then some n else s.node? x := by
      rw [Scope.node?, hnodes]
      exact find?_putBy x s.nodes
    rw [askedOf_concat, filtersOf, hfound]
    by_cases hx : n.name = x
    · subst hx
      rw [if_pos rfl, if_pos rfl, Option.elim_some, hfilters]
      exact List.rel_append hbefore (filterOf_of_propertyConditions ht hread)
    · rw [if_neg hx, if_neg hx, List.append_nil]
      exact hbefore

theorem Keeps.addNode {p : NodePattern} (hs : s.Keeps schema places hops)
    (h : Scope.addNode schema s p = .ok (s', n, isNew)) :
    s'.Keeps schema (places ++ [(n.name, p.properties.getD [])]) hops where
  toKeepsNodes := hs.toKeepsNodes.addNode h
  edges := by
    rw [(addNode_bindings h).1]
    exact hs.edges.imp fun _ _ he => he.mono (addNode_filters h).1

/-! ## Hops -/

/-- While the node behind it is read, the edge is bound without conditions. -/
theorem KeepsNodes.putEdge {source : String} {hop : Hop} (hs : s.KeepsNodes places)
    (step : HopStep schema s source hop) :
    (step.named.putEdge (edgeOf hop.relationship step.name source "" step.columns step.types
      [])).KeepsNodes places := by
  obtain ⟨hnodes, -, -, -, hconditions⟩ := nameFor_bindings step.nameFor_eq
  constructor
  · rw [step.edges_putEdge rfl, List.flatMap_append]
    have hkept := hs.conditions
    rw [← hnodes, ← hconditions, ← List.append_nil (s.edges.flatMap BoundEdge.filters)] at hkept
    exact hkept
  · intro x
    have hkept := (hs.nodes x).imp fun _ _ hc => FilterOf.mono step.grows_edge hc
    rw [filtersOf, Scope.node?, ← hnodes] at hkept
    exact hkept

/-- **A hop adds the same to the conditions and to its bindings.** -/
theorem Keeps.hop {source : String} {hop : Hop} (hs : s.Keeps schema places hops)
    (step : HopStep schema s source hop) :
    step.scope.Keeps schema (places ++ [(step.node.name, hop.node.properties.getD [])])
      (hops ++ [⟨hop.relationship, step.name, hop.node, step.node.name⟩]) := by
  have hbound := (hs.toKeepsNodes.putEdge step).addNode step.addNode_eq
  have hgrows : s.Grows step.scope :=
    (step.grows_edge.trans (addNode_filters step.addNode_eq).1).trans step.grows_scope
  refine ⟨⟨?_, ?_⟩, ?_⟩
  · have hbefore := hbound.conditions
    rw [step.bound_edges, List.flatMap_append] at hbefore
    have hsame : [edgeOf hop.relationship step.name source "" step.columns step.types []].flatMap
        BoundEdge.filters = [] := rfl
    rw [hsame, List.append_nil] at hbefore
    rw [step.scope_conditions, step.scope_nodes, step.edges_eq, List.flatMap_append,
      List.flatMap_singleton, ← List.append_assoc, List.append_assoc]
    exact hbefore.append_right _
  · intro x
    have hnode := (hbound.nodes x).imp fun _ _ hc => FilterOf.mono step.grows_scope hc
    rw [filtersOf, Scope.node?, ← step.scope_nodes] at hnode
    exact hnode
  · rw [step.edges_eq]
    refine List.rel_append (hs.edges.imp fun _ _ he => he.mono hgrows) (.cons ?_ .nil)
    exact ⟨rfl, rfl, rfl, step.edgeTypes_eq, step.filters, rfl,
      filterOf_of_propertyConditions step.grows_filters step.filters_eq⟩

/-! ## Patterns -/

theorem Keeps.first {p : NodePattern} (hs : s.Keeps schema places hops)
    (h : Scope.addNode schema s p = .ok (s', n, isNew)) :
    (if isNew then s'.addSource ⟨n.source.table, n.name, .cross⟩ else s').Keeps schema
      (places ++ [(n.name, p.properties.getD [])]) hops := by
  have hfirst := hs.addNode h
  cases isNew with
  | false => exact hfirst
  | true =>
    have hgrows : s'.Grows (s'.addSource ⟨n.source.table, n.name, .cross⟩) := grows_of_eq rfl rfl
    exact ⟨⟨hfirst.conditions, fun x => (hfirst.nodes x).imp fun _ _ hc => hc.mono hgrows⟩,
      hfirst.edges.imp fun _ _ he => he.mono hgrows⟩

/-- **Patterns keep their conditions twice.** -/
theorem keeps_of_addPatterns {ps : List Pattern} {relations : List (String × Relation)}
    (h : addPatterns schema { relations } ps = .ok s) :
    s.Keeps schema ((aliasedPatterns 0 ps).1.flatMap AliasedPattern.asked)
      ((aliasedPatterns 0 ps).1.flatMap AliasedPattern.hops) := by
  have hstart : Keeps schema { relations } [] [] := ⟨⟨.nil, fun _ => .nil⟩, .nil⟩
  have hkeeps := addPatterns_aliased
    (I := fun s nodes => s.Keeps schema (nodes.map fun p => (p.2, p.1.properties.getD [])))
    (J := fun s _ nodes => s.Keeps schema (nodes.map fun p => (p.2, p.1.properties.getD [])))
    (fun hs hnode => by simpa using hs.first hnode) (fun step hs => by simpa using hs.hop step)
    id [] [] hstart h
  rw [List.nil_append, List.nil_append, List.map_flatMap] at hkeeps
  exact hkeeps

end Scope

/-! ## Plans -/

namespace Plan

open Query (AliasedPattern Matching Projection aliasedPatterns askedOf map_pattern_aliasedPatterns)

/-- A plan whose conditions are those of its bindings, in some order, followed by those of the match
clauses, in theirs.  The patterns `qs` go by the names of the bindings, and the conditions are compiled
in the scope `s`. -/
structure KeepsFilters (schema : Schema) (s : Scope) (qs : List AliasedPattern)
    (ms : List Matching) (plan : Plan) : Prop where
  patterns : qs.map AliasedPattern.pattern = ms.flatMap Matching.patterns
  conditions : ∃ own given, plan.select.conditions = own ++ given ∧
    own.Perm (plan.nodes.flatMap BoundNode.filters ++ plan.edges.flatMap BoundEdge.filters) ∧
    List.Forall₂ (fun e c => s.compile e = .ok c) (ms.filterMap Matching.condition) given
  nodes : ∀ n ∈ plan.nodes,
    List.Forall₂ (s.FilterOf n.name) (askedOf (qs.flatMap AliasedPattern.asked) n.name) n.filters
  edges : List.Forall₂ (s.EdgeOf schema) (qs.flatMap AliasedPattern.hops) plan.edges
  links : plan.edges.map BoundEdge.link = qs.flatMap AliasedPattern.links
  ends : ∀ e ∈ plan.edges,
    e.source ∈ plan.nodes.map BoundNode.name ∧ e.target ∈ plan.nodes.map BoundNode.name
  apart : (plan.nodes.map BoundNode.name ++ plan.edges.map BoundEdge.name).Nodup

variable {schema : Schema} {relations : List (String × Relation)} {ms : List Matching}
  {p : Projection} {plan : Plan}

/-- The nodes before and behind an edge are bound. -/
theorem ends_mem_of_ofClauses (h : Plan.ofClauses schema relations ms p = .ok plan) :
    ∀ e ∈ plan.edges,
      e.source ∈ plan.nodes.map BoundNode.name ∧ e.target ∈ plan.nodes.map BoundNode.name := by
  have hfresh := freshAliases h
  intro e he
  have hlink : e.link ∈ _ := hfresh.links ▸ List.mem_map_of_mem he
  obtain ⟨q, hq, hlink⟩ := List.mem_flatMap.mp hlink
  have hbound : ∀ x ∈ q.nodePlaces.map Prod.snd, x ∈ plan.nodes.map BoundNode.name := by
    intro x hx
    obtain ⟨a, ha, rfl⟩ := List.mem_map.mp hx
    exact (hfresh.nodes a.2).mpr ⟨a, List.mem_flatMap.mpr ⟨q, hq, ha⟩, rfl⟩
  obtain ⟨hsource, htarget⟩ := AliasedPattern.ends_of_mem_links hlink
  exact ⟨hbound _ hsource, hbound _ htarget⟩

/-- **No condition is lost, doubled or misplaced.** -/
theorem keepsFilters_of_ofClauses (h : Plan.ofClauses schema relations ms p = .ok plan) :
    ∃ s, Scope.addPatterns schema { relations } (ms.flatMap Matching.patterns) = .ok s ∧
      KeepsFilters schema s (aliasedPatterns 0 (ms.flatMap Matching.patterns)).1 ms plan ∧
      (relations = [] → ∀ x entry c, s.FilterOf x entry c → s.propertyCondition x entry = .ok c) := by
  have hends := ends_mem_of_ofClauses h
  have hlinks := (freshAliases h).links
  obtain ⟨s, projected, given, select, hs, hselect, rfl⟩ := ofClauses_eq_ok.mp h
  have hkeeps := Scope.keeps_of_addPatterns hs
  have hintroduces := Scope.introduces_of_addPatterns hs
  refine ⟨s, hs, ⟨map_pattern_aliasedPatterns 0 _, ?_, ?_, hkeeps.edges, hlinks, hends, ?_⟩, ?_⟩
  · exact ⟨s.conditions, given, hselect.conditions, hkeeps.conditions,
      Scope.forall₂_of_compileAll hselect.compileAll_eq⟩
  · intro n hn
    have hnode := hkeeps.nodes n.name
    rw [Scope.filtersOf, hintroduces.node?_of_mem hn] at hnode
    exact hnode
  · simpa [Scope.names, Scope.bindings, BoundNode.binding, BoundEdge.binding, Function.comp_def]
      using hintroduces.nodup
  · rintro rfl x entry c hc
    exact hc.propertyCondition hintroduces (Scope.stored_of_addPatterns hs)

/-- The clauses `MATCH (a {id: 1})-[r:knows {idl: 2}]->(b {id: 3}) WHERE a.id = 4` and
`MATCH (a {id: 5})<--(b) WHERE b.id = 6`. -/
def askingClauses : List Matching :=
  [⟨[⟨{ name := some "a", properties := some [("id", .integer 1)] },
      [⟨{ name := some "r", types := ["knows"], direction := .outgoing,
          properties := some [("idl", .integer 2)] },
        { name := some "b", properties := some [("id", .integer 3)] }⟩]⟩],
      some (.compare .eq (.property (.var "a") "id") (.integer 4))⟩,
    ⟨[⟨{ name := some "a", properties := some [("id", .integer 5)] },
      [⟨{ direction := .incoming }, { name := some "b" }⟩]⟩],
      some (.compare .eq (.property (.var "b") "id") (.integer 6))⟩]

theorem keepsFilters_of_ofClauses_asking :
    ∃ plan, Plan.ofClauses friendsSchema [] askingClauses { items := [⟨.var "a", none⟩] } =
        .ok plan ∧
      plan.select.conditions.map Relational.Expr.render =
        ["a.id = 1", "b.id = 3", "r.type = 'KNOWS'", "r.idl = 2", "a.id = 5", "a.id = 4",
          "b.id = 6"] ∧
      plan.nodes.map (fun n => n.filters.map Relational.Expr.render) =
        [["a.id = 1", "a.id = 5"], ["b.id = 3"]] ∧
      ∃ s, Scope.addPatterns friendsSchema {} (askingClauses.flatMap Matching.patterns) = .ok s ∧
        KeepsFilters friendsSchema s
          (aliasedPatterns 0 (askingClauses.flatMap Matching.patterns)).1 askingClauses plan ∧
        ∀ x entry c, s.FilterOf x entry c → s.propertyCondition x entry = .ok c := by
  have hplan : (Plan.ofClauses friendsSchema [] askingClauses
      { items := [⟨.var "a", none⟩] }).toOption.map (fun plan =>
        (plan.select.conditions.map Relational.Expr.render,
          plan.nodes.map fun n => n.filters.map Relational.Expr.render)) =
      some (["a.id = 1", "b.id = 3", "r.type = 'KNOWS'", "r.idl = 2", "a.id = 5", "a.id = 4",
        "b.id = 6"], [["a.id = 1", "a.id = 5"], ["b.id = 3"]]) := by decide +kernel
  obtain ⟨plan, hplan, htexts⟩ := Option.map_eq_some_iff.mp hplan
  have hplan := Except.eq_ok_of_toOption hplan
  obtain ⟨s, hs, hkeeps, hread⟩ := keepsFilters_of_ofClauses hplan
  exact ⟨plan, hplan, congrArg Prod.fst htexts, congrArg Prod.snd htexts, s, hs, hkeeps, hread rfl⟩

end Plan

end GraphSql
