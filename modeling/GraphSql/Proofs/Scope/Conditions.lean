import GraphSql.Proofs.Scope.Aliases
import GraphSql.Proofs.Scope.Columns
import GraphSql.Proofs.Scope.Mirror

/-!
# The conditions of patterns

The properties of a pattern are resolved while the patterns behind it are still to be read.  What a
name stands for does not change once it is bound (`Scope.Grows`), so what can be compiled early is
compiled to the same thing in the scope behind all patterns.

Hence the conditions of that scope are those of its patterns, one pattern after the other, with all
names read in the scope itself (`Scope.conditions_of_addPatterns`).
-/

namespace GraphSql

/-- The name of a node and what it ranges over. -/
def BoundNode.known (n : BoundNode) : String × NodeSource := (n.name, n.source)

/-- The name of an edge and its columns. -/
def BoundEdge.known (e : BoundEdge) : String × List Column := (e.name, e.columns)

namespace Scope

open Query (NodePattern Hop Pattern AliasedHop AliasedPattern Properties aliasAt aliasedHops
  aliasedPatterns)
open Relational (Expr)

variable {schema : Schema} {s s' t : Scope} {x : String} {n : BoundNode}

/-! ## Scopes that grow -/

/-- Everything that is bound in `s` is bound in `t` and has the same columns there. -/
structure Grows (s t : Scope) : Prop where
  nodes : s.nodes.map BoundNode.known ⊆ t.nodes.map BoundNode.known
  edges : s.edges.map BoundEdge.known ⊆ t.edges.map BoundEdge.known

theorem Grows.refl (s : Scope) : s.Grows s := ⟨List.Subset.refl _, List.Subset.refl _⟩

theorem Grows.trans {u : Scope} (h : s.Grows t) (h' : t.Grows u) : s.Grows u :=
  ⟨List.Subset.trans h.nodes h'.nodes, List.Subset.trans h.edges h'.edges⟩

theorem grows_of_eq (hn : s.nodes.map BoundNode.known = t.nodes.map BoundNode.known)
    (he : s.edges.map BoundEdge.known = t.edges.map BoundEdge.known) : s.Grows t :=
  ⟨by rw [hn]; exact List.Subset.refl _, by rw [he]; exact List.Subset.refl _⟩

theorem grows_nameFor {kind name : String} {variableName : Option String} {s₀ : Scope}
    (h : s.nameFor kind variableName = (name, s₀)) : s.Grows s₀ ∧ s₀.Grows s := by
  obtain ⟨hnodes, hedges, -⟩ := nameFor_bindings h
  exact ⟨grows_of_eq (by rw [hnodes]) (by rw [hedges]), grows_of_eq (by rw [hnodes]) (by rw [hedges])⟩

theorem grows_putNode_of_none (h : s.node? n.name = none) : s.Grows (s.putNode n) where
  nodes := by
    rw [nodes_putNode_of_none h, List.map_append]
    exact List.subset_append_left _ _
  edges := List.Subset.refl _

/-! ### Names in a scope that has grown -/

theorem Grows.derived_eq_nil (h : s.Grows t) (ht : t.Stored) : s.derived = [] := by
  rw [derived, List.filterMap_eq_nil_iff]
  intro n hn
  obtain ⟨m, hm, hknown⟩ := List.mem_map.mp (h.nodes (List.mem_map_of_mem hn))
  have hsource : m.source = n.source := congrArg Prod.snd hknown
  rw [← hsource, ht.nodes m hm]
  rfl

theorem Grows.node? (h : s.Grows t) (ht : t.Introduces) (hn : s.node? x = some n) :
    ∃ m, t.node? x = some m ∧ m.source = n.source := by
  obtain ⟨hmem, rfl⟩ := mem_of_node? hn
  obtain ⟨m, hm, hknown⟩ := List.mem_map.mp (h.nodes (List.mem_map_of_mem hmem))
  have hname : m.name = n.name := congrArg Prod.fst hknown
  exact ⟨m, hname ▸ ht.node?_of_mem hm, congrArg Prod.snd hknown⟩

theorem Grows.edge? (h : s.Grows t) (ht : t.Introduces) {e : BoundEdge} (he : s.edge? x = some e) :
    t.node? x = none ∧ ∃ d, t.edge? x = some d ∧ d.columns = e.columns := by
  obtain ⟨hmem, rfl⟩ := mem_of_edge? he
  obtain ⟨d, hd, hknown⟩ := List.mem_map.mp (h.edges (List.mem_map_of_mem hmem))
  have hname : d.name = e.name := congrArg Prod.fst hknown
  obtain ⟨hnone, hfound⟩ := ht.edge?_of_mem hd
  exact ⟨hname ▸ hnone, d, hname ▸ hfound, congrArg Prod.snd hknown⟩

theorem Grows.stored? (h : s.Grows t) (ht : t.Introduces) {r : String × List Column}
    (hr : s.stored? x = some r) : t.stored? x = some r := by
  unfold Scope.stored? at hr ⊢
  cases hn : s.node? x with
  | some n =>
    obtain ⟨m, hm, hsource⟩ := h.node? ht hn
    rw [hn] at hr
    rw [hm]
    dsimp only at hr ⊢
    rwa [hsource]
  | none =>
    rw [hn] at hr
    obtain ⟨e, he, rfl⟩ := Option.map_eq_some_iff.mp hr
    obtain ⟨hnone, d, hd, hcolumns⟩ := h.edge? ht he
    rw [hnone, hd]
    simp [hcolumns]

theorem Grows.lookupProperty (h : s.Grows t) (ht : t.Introduces) (hstored : t.Stored) {key : String}
    {r : Resolved} (hr : s.lookupProperty x key = .ok r) : t.lookupProperty x key = .ok r := by
  rcases lookupProperty_eq_ok hr with ⟨table, columns, c, hcolumns, hc, rfl⟩ | ⟨p, hp, -⟩
  · rw [Scope.lookupProperty, h.stored? ht hcolumns]
    dsimp only
    rw [hc]
  · rw [h.derived_eq_nil hstored] at hp
    cases hp

theorem Grows.lookupName (h : s.Grows t) (ht : t.Introduces) (hstored : t.Stored) {r : Resolved}
    (hr : s.lookupName x = .ok r) : t.lookupName x = .ok r := by
  rcases lookupName_eq_ok hr with ⟨n, table, columns, labels, hn, hsource, rfl⟩ | ⟨e, he, rfl⟩ |
    ⟨p, hp, -⟩
  · obtain ⟨m, hm, hm'⟩ := h.node? ht hn
    rw [Scope.lookupName, hm]
    dsimp only
    rw [hm', hsource]
  · obtain ⟨hnone, d, hd, -⟩ := h.edge? ht he
    rw [Scope.lookupName, hnone, hd]
  · rw [h.derived_eq_nil hstored] at hp
    cases hp

theorem Grows.variableColumns (h : s.Grows t) (ht : t.Introduces) (hstored : t.Stored)
    {scope : String} {cs : List ResultColumn} (hcs : s.variableColumns x scope = .ok cs) :
    t.variableColumns x scope = .ok cs := by
  unfold Scope.variableColumns at hcs ⊢
  cases hs : s.stored? x with
  | some r =>
    rw [hs] at hcs
    rw [h.stored? ht hs]
    exact hcs
  | none =>
    rw [hs, h.derived_eq_nil hstored] at hcs
    cases hcs

/-- A scope that has grown resolves names as before. -/
theorem Grows.mirrors (h : s.Grows t) (ht : t.Introduces) (hstored : t.Stored)
    (names : List String) : Mirrors .column names s t where
  name _ _ r hr := ⟨r, h.lookupName ht hstored hr, r.mapColumns_column⟩
  property _ _ _ r hr := ⟨r, h.lookupProperty ht hstored hr, r.mapColumns_column⟩
  columns _ _ _ cs hcs :=
    ⟨cs, h.variableColumns ht hstored hcs, ResultColumn.map_mapColumns_column cs⟩

theorem Grows.propertyCondition (h : s.Grows t) (ht : t.Introduces) (hstored : t.Stored)
    {entry : String × Query.Expr} {a : Expr} (ha : s.propertyCondition x entry = .ok a) :
    t.propertyCondition x entry = .ok a := by
  have hparallel := (h.mirrors ht hstored (x :: entry.2.mentioned)).parallel
  obtain ⟨b, hb, rfl⟩ := (hparallel.propertyCondition List.mem_cons_self fun _ =>
    List.mem_cons_of_mem x).succeeds a ha
  rw [hb, b.mapColumns_column]

theorem Grows.propertyConditions (h : s.Grows t) (ht : t.Introduces) (hstored : t.Stored)
    {properties : Option Properties} {cs : List Expr}
    (hcs : s.propertyConditions x properties = .ok cs) :
    t.propertyConditions x properties = .ok cs := by
  have hall : Except.Mirrors (List.map id) (s.propertyConditions x properties)
      (t.propertyConditions x properties) :=
    Except.Mirrors.mapM fun entry _ a ha => ⟨a, h.propertyCondition ht hstored ha, rfl⟩
  obtain ⟨cs', hcs', rfl⟩ := hall cs hcs
  rwa [List.map_id]

/-! ## Conditions that are read late -/

/-- The conditions of a hop with all names read in one scope. -/
def hopConditions (schema : Schema) (s : Scope) (h : AliasedHop) :
    Except Error (List Expr) := do
  let node ← s.propertyConditions h.target h.node.properties
  let (_, types) ← edgeTypes schema h.relationship.types
  let edge ← s.propertyConditions h.edge h.relationship.properties
  return node ++ typeConditions h.edge types ++ edge

/-- The conditions of a pattern with all names read in one scope. -/
def patternConditions (schema : Schema) (s : Scope) (q : AliasedPattern) :
    Except Error (List Expr) := do
  let first ← s.propertyConditions q.start q.first.properties
  let hops ← q.hops.mapM (s.hopConditions schema)
  return first ++ hops.flatten

/-- From `s` to `s'` the scope grows, and the conditions that it gets are found by `conditions` in
every scope that it can grow into. -/
structure Collects (s s' : Scope) (conditions : Scope → Except Error (List Expr)) :
    Prop where
  grows : s.Grows s'
  added : ∃ cs, s'.conditions = s.conditions ++ cs ∧
    ∀ t : Scope, s'.Grows t → t.Introduces → t.Stored → conditions t = .ok cs

theorem Collects.append {s₁ s₂ s₃ : Scope} {f g : Scope → Except Error (List Expr)}
    (h : Collects s₁ s₂ f) (h' : Collects s₂ s₃ g) :
    Collects s₁ s₃ fun t => do return (← f t) ++ (← g t) := by
  obtain ⟨cs, hcs, hf⟩ := h.added
  obtain ⟨ds, hds, hg⟩ := h'.added
  refine ⟨h.grows.trans h'.grows, cs ++ ds, by rw [hds, hcs, List.append_assoc], ?_⟩
  intro t ht hintroduces hstored
  rw [hf t (h'.grows.trans ht) hintroduces hstored, hg t ht hintroduces hstored]
  rfl

/-- The conditions that a scope keeps with a node. -/
def filtersOf (s : Scope) (x : String) : List Expr :=
  (s.node? x).elim [] BoundNode.filters

/-- **What a node pattern asks for** is read in a scope that grows into the next one; it becomes
conditions and is kept with the node, behind what is kept there already. -/
theorem addNode_filters {p : NodePattern} {isNew : Bool}
    (h : Scope.addNode schema s p = .ok (s', n, isNew)) :
    s.Grows s' ∧ ∃ (t : Scope) (filters : List Expr), t.Grows s' ∧
      t.propertyConditions n.name p.properties = .ok filters ∧
      s'.conditions = s.conditions ++ filters ∧ n.filters = s.filtersOf n.name ++ filters ∧
      s'.nodes = putBy (fun m => m.name == n.name) n s.nodes := by
  obtain ⟨name, s₀, hname, hcase⟩ := addNode_cases h
  obtain ⟨hgrows, -⟩ := grows_nameFor hname
  obtain ⟨hnodes, -, -, -, hconditions⟩ := nameFor_bindings hname
  have hkept : ∀ x, s.filtersOf x = s₀.filtersOf x := fun x => by
    rw [filtersOf, filtersOf, Scope.node?, Scope.node?, hnodes]
  rcases hcase with ⟨m, filters, -, hm, -, hfilters, rfl, rfl⟩ |
    ⟨source, filters, -, hnone, -, -, hfilters, rfl, rfl⟩
  · obtain ⟨-, rfl⟩ := mem_of_node? hm
    have hsame : BoundNode.known { m with filters := m.filters ++ filters } = m.known := rfl
    have hput : s₀.Grows ((s₀.putNode { m with filters := m.filters ++ filters }).addConditions
        filters) :=
      grows_of_eq (map_putBy_of_find?_eq_some hsame hm).symm rfl
    refine ⟨hgrows.trans hput, s₀, filters, hput, hfilters, congrArg (· ++ filters) hconditions,
      ?_, by rw [← hnodes]; rfl⟩
    rw [hkept, filtersOf, hm]
    rfl
  · have hbound : s₀.Grows (s₀.putNode { name, source, filters }) := grows_putNode_of_none hnone
    have hput : (s₀.putNode { name, source }).Grows (s₀.putNode { name, source, filters }) := by
      refine grows_of_eq ?_ rfl
      rw [nodes_putNode_of_none (n := { name, source }) hnone,
        nodes_putNode_of_none (n := { name, source, filters }) hnone, List.map_append,
        List.map_append]
      rfl
    refine ⟨⟨(hgrows.trans hbound).nodes, (hgrows.trans hbound).edges⟩, s₀.putNode { name, source },
      filters, ⟨hput.nodes, hput.edges⟩, hfilters, congrArg (· ++ filters) hconditions, ?_,
      by rw [← hnodes]; rfl⟩
    rw [hkept, filtersOf, hnone]
    rfl

theorem Collects.addNode {p : NodePattern} {isNew : Bool}
    (h : Scope.addNode schema s p = .ok (s', n, isNew)) :
    Collects s s' fun t => t.propertyConditions n.name p.properties := by
  obtain ⟨hgrows, t, filters, ht, hfilters, hconditions, -, -⟩ := addNode_filters h
  exact ⟨hgrows, filters, hconditions, fun u hu hintroduces hstored =>
    (ht.trans hu).propertyConditions hintroduces hstored hfilters⟩

namespace HopStep

variable {source : String} {hop : Hop} (step : HopStep schema s source hop)

theorem grows_edge : s.Grows (step.named.putEdge
    (edgeOf hop.relationship step.name source "" step.columns step.types [])) where
  nodes := (grows_nameFor step.nameFor_eq).1.nodes
  edges := by
    rw [step.edges_putEdge rfl, List.map_append]
    exact List.subset_append_left _ _

theorem grows_scope : step.bound.Grows step.scope := by
  refine grows_of_eq (by rw [step.scope_nodes]) ?_
  rw [step.bound_edges, step.edges_eq, List.map_append, List.map_append]
  rfl

/-- The scope in which the properties of the edge are read. -/
theorem grows_filters : (((step.bound.addJoin step.name
    (joinConditions hop.relationship.direction step.name step.sourceKey.expr step.targetKey.expr)
    step.node step.isNew).addConditions (typeConditions step.name step.types)).putEdge
      (edgeOf hop.relationship step.name source step.node.name step.columns step.types [])).Grows
    step.scope := by
  refine grows_of_eq ?_ ?_
  · rw [step.scope_nodes]
    exact congrArg _ nodes_addJoin
  · have hedges := step.putBy_bound_edges (e := edgeOf hop.relationship step.name source
      step.node.name step.columns step.types []) rfl
    rw [putEdge, addConditions, edges_addJoin]
    dsimp only
    rw [hedges, step.edges_eq, List.map_append, List.map_append]
    rfl

theorem conditions_eq : ∃ cs, step.scope.conditions = s.conditions ++ cs ∧
    ∀ t : Scope, step.scope.Grows t → t.Introduces → t.Stored →
      t.hopConditions schema ⟨hop.relationship, step.name, hop.node, step.node.name⟩ = .ok cs := by
  obtain ⟨cs, hcs, hnode⟩ := (Collects.addNode step.addNode_eq).added
  obtain ⟨-, -, -, -, hconditions⟩ := nameFor_bindings step.nameFor_eq
  refine ⟨cs ++ typeConditions step.name step.types ++ step.filters, ?_, ?_⟩
  · have hbound : step.bound.conditions = s.conditions ++ cs :=
      hcs.trans (congrArg (· ++ cs) hconditions)
    rw [step.scope_conditions, hbound, List.append_assoc, List.append_assoc, List.append_assoc]
  · intro t ht hintroduces hstored
    rw [hopConditions, hnode t (step.grows_scope.trans ht) hintroduces hstored]
    dsimp only
    rw [step.edgeTypes_eq,
      (step.grows_filters.trans ht).propertyConditions hintroduces hstored step.filters_eq]
    rfl

end HopStep

theorem Collects.hop {source : String} {hop : Hop} (step : HopStep schema s source hop) :
    Collects s step.scope fun t => t.hopConditions schema (hop.aliased s.anonymous).1 where
  grows := (step.grows_edge.trans (Collects.addNode step.addNode_eq).grows).trans step.grows_scope
  added := by
    rw [(Binds.hop step).1]
    exact step.conditions_eq

theorem Collects.addHops : ∀ {hops : List Hop} {s : Scope} {source : String},
    Scope.addHops schema s source hops = .ok s' → Collects s s' fun t => do
      return (← (aliasedHops s.anonymous hops).1.mapM (t.hopConditions schema)).flatten
  | [], s, source, h => by
    cases h
    exact ⟨Grows.refl _, [], (List.append_nil _).symm, fun _ _ _ _ => rfl⟩
  | hop :: hops, s, source, h => by
    obtain ⟨s₁, target, h₁, h⟩ := addHops_cons h
    obtain ⟨step, rfl, rfl⟩ := exists_hopStep h₁
    have hall := (Collects.hop step).append (Collects.addHops h)
    rw [(Binds.hop step).2.anonymous] at hall
    obtain ⟨cs, hcs, hread⟩ := hall.added
    refine ⟨hall.grows, cs, hcs, fun t ht hintroduces hstored => ?_⟩
    rw [← hread t ht hintroduces hstored, aliasedHops, List.mapM_cons]
    simp only [bind_assoc, pure_bind, List.flatten_cons]

theorem Collects.addPattern {p : Pattern} (h : Scope.addPattern schema s p = .ok s') :
    Collects s s' fun t => t.patternConditions schema (p.aliased s.anonymous).1 := by
  obtain ⟨s₁, n, isNew, hnode, h⟩ := addPattern_cases h
  obtain ⟨hname, hbinds⟩ := Binds.addNode hnode
  have hfirst := Collects.addNode hnode
  have hsource : Collects s (if isNew then s₁.addSource ⟨n.source.table, n.name, .cross⟩ else s₁)
      (fun t => t.propertyConditions n.name p.first.properties) ∧
      (if isNew then s₁.addSource ⟨n.source.table, n.name, .cross⟩ else s₁).anonymous =
        s₁.anonymous := by
    cases isNew with
    | false => exact ⟨hfirst, rfl⟩
    | true => exact ⟨⟨⟨hfirst.grows.nodes, hfirst.grows.edges⟩,
        hfirst.added.imp fun cs hcs => ⟨hcs.1, fun t ht => hcs.2 t ⟨ht.nodes, ht.edges⟩⟩⟩, rfl⟩
  have hall := hsource.1.append (Collects.addHops h)
  rw [hsource.2, hbinds.anonymous, hname] at hall
  simpa only [patternConditions, Pattern.aliased, bind_assoc, pure_bind] using hall

theorem Collects.addPatterns : ∀ {ps : List Pattern} {s : Scope},
    Scope.addPatterns schema s ps = .ok s' → Collects s s' fun t => do
      return (← (aliasedPatterns s.anonymous ps).1.mapM (t.patternConditions schema)).flatten
  | [], s, h => by
    cases h
    exact ⟨Grows.refl _, [], (List.append_nil _).symm, fun _ _ _ _ => rfl⟩
  | p :: ps, s, h => by
    rw [Scope.addPatterns, List.foldlM_cons] at h
    obtain ⟨s₁, h₁, h⟩ := Except.bind_eq_ok.mp h
    have hall := (Collects.addPattern h₁).append (Collects.addPatterns h)
    rw [(Binds.addPattern h₁).anonymous] at hall
    obtain ⟨cs, hcs, hread⟩ := hall.added
    refine ⟨hall.grows, cs, hcs, fun t ht hintroduces hstored => ?_⟩
    rw [← hread t ht hintroduces hstored, aliasedPatterns, List.mapM_cons]
    simp only [bind_assoc, pure_bind, List.flatten_cons]

theorem stored_of_addPatterns {ps : List Pattern} (h : addPatterns schema {} ps = .ok s) :
    s.Stored := by
  have hranged := ranged_of_addPatterns h
  refine ⟨hranged.relations_eq, fun n hn => ?_⟩
  obtain ⟨labels, hlabels⟩ := hranged.nodes n hn
  exact relation?_of_nodeSource rfl hlabels

/-- **The conditions of a scope are those of its patterns**, with all names read in the scope
itself. -/
theorem conditions_of_addPatterns {ps : List Pattern} (h : addPatterns schema {} ps = .ok s) :
    ∃ css, (aliasedPatterns 0 ps).1.mapM (s.patternConditions schema) = .ok css ∧
      s.conditions = css.flatten := by
  obtain ⟨cs, hcs, hread⟩ := (Collects.addPatterns h).added
  have hall := hread s (Grows.refl s) (introduces_of_addPatterns h) (stored_of_addPatterns h)
  obtain ⟨css, hcss, hflatten⟩ := Except.bind_eq_ok.mp hall
  rw [Except.pure_eq_ok] at hflatten
  exact ⟨css, hcss, by rw [hcs, ← hflatten]; rfl⟩

end Scope

end GraphSql
