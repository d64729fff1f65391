import GraphSql.Proofs.Scope.Meaning
import GraphSql.Query.Names

/-!
# Anonymous patterns

Every node and relationship of a pattern goes by an alias, and `aliasedPatterns` says which: a
variable stands for itself, and the places without one are numbered through in the order in which
they are read, nodes and relationships alike.  A plan binds just these aliases (`Scope.Binds`).

The numbers do not look at the variables of the query.  So what keeps the aliases apart is not the
same for all places (`Plan.freshAliases_of_ofClauses`):

* a relationship must be new when it is bound, so its alias is that of no other place;
* two anonymous places have different numbers;
* an anonymous node shares its binding with a node variable that happens to be spelled like its
  alias, such as `_n0`, and with nothing else.
-/

namespace GraphSql.Query

/-! ## Numbering the places -/

/-- The alias of a place of the given kind behind `k` places without a variable, and the number of
such places with this one. -/
def aliasAt (kind : String) (k : Nat) : Option String → String × Nat
  | some x => (x, k)
  | none => ("_" ++ kind ++ Numeral.natural k, k + 1)

/-- A relationship is read before the node that it leads to. -/
def Hop.aliased (k : Nat) (h : Hop) : AliasedHop × Nat :=
  let edge := aliasAt "e" k h.relationship.name
  let target := aliasAt "n" edge.2 h.node.name
  (⟨h.relationship, edge.1, h.node, target.1⟩, target.2)

def aliasedHops (k : Nat) : List Hop → List AliasedHop × Nat
  | [] => ([], k)
  | h :: hs =>
    let first := h.aliased k
    let rest := aliasedHops first.2 hs
    (first.1 :: rest.1, rest.2)

def Pattern.aliased (k : Nat) (p : Pattern) : AliasedPattern × Nat :=
  let start := aliasAt "n" k p.first.name
  let hops := aliasedHops start.2 p.hops
  (⟨p.first, start.1, hops.1⟩, hops.2)

/-- The patterns of a query with their aliases, behind `k` places without a variable. -/
def aliasedPatterns (k : Nat) : List Pattern → List AliasedPattern × Nat
  | [] => ([], k)
  | p :: ps =>
    let first := p.aliased k
    let rest := aliasedPatterns first.2 ps
    (first.1 :: rest.1, rest.2)

namespace AliasedPattern

/-- The variables of the nodes of a pattern and the aliases at their places. -/
def nodePlaces (q : AliasedPattern) : List (Option String × String) :=
  (q.first.name, q.start) :: q.hops.map fun h => (h.node.name, h.target)

/-- The nodes of a pattern with the aliases that they go by. -/
def nodes (q : AliasedPattern) : List (NodePattern × String) :=
  (q.first, q.start) :: q.hops.map fun h => (h.node, h.target)

/-- The variables of the relationships of a pattern and the aliases at their places. -/
def edgePlaces (q : AliasedPattern) : List (Option String × String) :=
  q.hops.map fun h => (h.relationship.name, h.edge)

end AliasedPattern

/-- The aliases of each relationship and of the nodes before and behind it. -/
def linksFrom (source : String) : List AliasedHop → List (String × String × String)
  | [] => []
  | h :: hs => (source, h.edge, h.target) :: linksFrom h.target hs

def AliasedPattern.links (q : AliasedPattern) : List (String × String × String) :=
  linksFrom q.start q.hops

theorem map_hop_aliasedHops : ∀ (k : Nat) (hs : List Hop),
    (aliasedHops k hs).1.map AliasedHop.hop = hs
  | _, [] => rfl
  | k, h :: hs => by
    rw [aliasedHops, List.map_cons, map_hop_aliasedHops]
    rfl

/-- Aliases change nothing else about patterns. -/
theorem map_pattern_aliasedPatterns : ∀ (k : Nat) (ps : List Pattern),
    (aliasedPatterns k ps).1.map AliasedPattern.pattern = ps
  | _, [] => rfl
  | k, p :: ps => by
    rw [aliasedPatterns, List.map_cons, map_pattern_aliasedPatterns, AliasedPattern.pattern,
      Pattern.aliased, map_hop_aliasedHops]

theorem map_edge_linksFrom : ∀ (source : String) (hs : List AliasedHop),
    (linksFrom source hs).map (fun l => l.2.1) = hs.map AliasedHop.edge
  | _, [] => rfl
  | source, h :: hs => by
    rw [linksFrom, List.map_cons, map_edge_linksFrom, List.map_cons]

theorem AliasedPattern.map_edge_links (q : AliasedPattern) :
    q.links.map (fun l => l.2.1) = q.edgePlaces.map Prod.snd := by
  rw [links, map_edge_linksFrom, edgePlaces, List.map_map]
  rfl

theorem AliasedPattern.map_fst_nodePlaces (q : AliasedPattern) :
    q.nodePlaces.map Prod.fst = q.pattern.nodes.map NodePattern.name := by
  simp [nodePlaces, pattern, Pattern.nodes, AliasedHop.hop]

theorem nodePlaces_sublist (hs : List AliasedHop) :
    (hs.map fun h => (h.node.name, h.target)).Sublist (hs.flatMap AliasedHop.places) := by
  induction hs with
  | nil => exact .slnil
  | cons h hs ih => exact .cons _ (.cons_cons _ ih)

theorem AliasedPattern.nodePlaces_sublist_places (qs : List AliasedPattern) :
    (qs.flatMap nodePlaces).Sublist (qs.flatMap places) := by
  induction qs with
  | nil => exact .slnil
  | cons q qs ih => exact ((nodePlaces_sublist q.hops).cons_cons _).append ih

theorem AliasedPattern.edgePlaces_subset (q : AliasedPattern) : q.edgePlaces ⊆ q.places := by
  intro a ha
  obtain ⟨h, hh, rfl⟩ := List.mem_map.mp ha
  exact List.mem_cons_of_mem _ (List.mem_flatMap.mpr ⟨h, hh, List.mem_cons_self⟩)

/-- An anonymous node has an alias for nodes. -/
theorem nodePlaces_aliasedHops : ∀ (k : Nat) (hs : List Hop),
    ∀ h ∈ (aliasedHops k hs).1, h.node.name = none → ∃ j, h.target = "_n" ++ Numeral.natural j
  | _, [], h, hmem, _ => by cases hmem
  | k, hop :: hs, h, hmem, hnone => by
    rcases List.mem_cons.mp hmem with rfl | hmem
    · have hname : hop.node.name = none := hnone
      exact ⟨(aliasAt "e" k hop.relationship.name).2, by
        rw [Hop.aliased, hname]
        rfl⟩
    · exact nodePlaces_aliasedHops _ hs h hmem hnone

theorem nodePlaces_aliasedPatterns : ∀ (k : Nat) (ps : List Pattern),
    ∀ a ∈ (aliasedPatterns k ps).1.flatMap AliasedPattern.nodePlaces, a.1 = none →
      ∃ j, a.2 = "_n" ++ Numeral.natural j
  | _, [], a, hmem, _ => by cases hmem
  | k, p :: ps, a, hmem, hnone => by
    rw [aliasedPatterns, List.flatMap_cons] at hmem
    rcases List.mem_append.mp hmem with hmem | hmem
    · rcases List.mem_cons.mp hmem with rfl | hmem
      · have hname : p.first.name = none := hnone
        exact ⟨k, by
          rw [Pattern.aliased, hname]
          rfl⟩
      · obtain ⟨h, hh, rfl⟩ := List.mem_map.mp hmem
        exact nodePlaces_aliasedHops _ p.hops h hh hnone
    · exact nodePlaces_aliasedPatterns _ ps a hmem hnone

/-- A node variable stands in the pattern that its place is in. -/
theorem mem_nodeNames_of_nodePlaces {k : Nat} {ps : List Pattern} {a : Option String × String}
    (ha : a ∈ (aliasedPatterns k ps).1.flatMap AliasedPattern.nodePlaces) {x : String}
    (hx : a.1 = some x) : ∃ p ∈ ps, x ∈ p.nodeNames := by
  obtain ⟨q, hq, ha⟩ := List.mem_flatMap.mp ha
  refine ⟨q.pattern, ?_, ?_⟩
  · rw [← map_pattern_aliasedPatterns k ps]
    exact List.mem_map_of_mem hq
  · have hname : some x ∈ q.pattern.nodes.map NodePattern.name := by
      rw [← q.map_fst_nodePlaces, ← hx]
      exact List.mem_map_of_mem ha
    obtain ⟨n, hn, hx⟩ := List.mem_map.mp hname
    exact List.mem_filterMap.mpr ⟨n, hn, hx⟩

end GraphSql.Query

namespace GraphSql

/-- The names of an edge and of the nodes before and behind it. -/
def BoundEdge.link (e : BoundEdge) : String × String × String := (e.source, e.name, e.target)

namespace Scope

open Query

variable {schema : Schema} {s s' : Scope}

theorem aliased_aliasAt (kind : String) (hk : kind ∈ ["n", "e"]) (k : Nat) (x : Option String) :
    Aliased k [(x, (aliasAt kind k x).1)] (aliasAt kind k x).2 := by
  cases x with
  | none => exact .anonymous kind hk (.nil _)
  | some x => exact .named x (.nil _)

theorem aliased_aliasedHops : ∀ (k : Nat) (hs : List Hop),
    Aliased k ((aliasedHops k hs).1.flatMap AliasedHop.places) (aliasedHops k hs).2
  | k, [] => .nil k
  | k, h :: hs => by
    have hedge := aliased_aliasAt "e" (by simp) k h.relationship.name
    have hnode := aliased_aliasAt "n" (by simp) (aliasAt "e" k h.relationship.name).2
      h.node.name
    exact (hedge.append hnode).append (aliased_aliasedHops _ hs)

theorem aliased_aliasedPatterns : ∀ (k : Nat) (ps : List Pattern),
    Aliased k ((aliasedPatterns k ps).1.flatMap AliasedPattern.places) (aliasedPatterns k ps).2
  | k, [] => .nil k
  | k, p :: ps => by
    have hstart := aliased_aliasAt "n" (by simp) k p.first.name
    exact (hstart.append (aliased_aliasedHops _ p.hops)).append (aliased_aliasedPatterns _ ps)

/-- Places without a variable have different numbers. -/
theorem Aliased.anonymous_differ {k k' : Nat} {places : List (Option String × String)}
    (h : Aliased k places k') :
    places.Pairwise fun a b => a.1 = none → b.1 = none → a.2 ≠ b.2 := by
  induction h with
  | nil k => exact .nil
  | named x _ ih => exact .cons (fun b _ hnone => by cases hnone) ih
  | @anonymous kind k _ _ hk hrest ih =>
    refine .cons (fun b hb _ hnone he => ?_) ih
    rcases hrest.mem hb with hsome | ⟨kind', hk', j, hj, rfl⟩
    · rw [hsome] at hnone
      cases hnone
    · have := natural_injective hk hk' he
      omega

/-! ## What a scope binds -/

/-- Reading a part of a query counts its places without a variable, binds its nodes and binds its
relationships, each with the names of the nodes that it joins. -/
structure Binds (s s' : Scope) (anonymous : Nat) (nodes : List String)
    (links : List (String × String × String)) : Prop where
  anonymous : s'.anonymous = anonymous
  nodes : ∀ x, x ∈ s'.nodes.map BoundNode.name ↔ x ∈ s.nodes.map BoundNode.name ∨ x ∈ nodes
  links : s'.edges.map BoundEdge.link = s.edges.map BoundEdge.link ++ links

theorem Binds.trans {s₁ s₂ s₃ : Scope} {j k : Nat} {xs ys : List String}
    {ls ms : List (String × String × String)} (h : Binds s₁ s₂ j xs ls)
    (h' : Binds s₂ s₃ k ys ms) : Binds s₁ s₃ k (xs ++ ys) (ls ++ ms) where
  anonymous := h'.anonymous
  nodes x := by
    rw [h'.nodes, h.nodes, List.mem_append, or_assoc]
  links := by rw [h'.links, h.links, List.append_assoc]

theorem nameFor_eq_aliasAt (kind : String) (x : Option String) :
    s.nameFor kind x =
      ((aliasAt kind s.anonymous x).1, { s with anonymous := (aliasAt kind s.anonymous x).2 }) := by
  cases x with
  | none => rfl
  | some x => rfl

theorem Binds.addNode {p : NodePattern} {n : BoundNode} {isNew : Bool}
    (h : Scope.addNode schema s p = .ok (s', n, isNew)) :
    n.name = (aliasAt "n" s.anonymous p.name).1 ∧
      Binds s s' (aliasAt "n" s.anonymous p.name).2 [n.name] [] := by
  obtain ⟨hedges, -, -, hnodes⟩ := addNode_bindings h
  obtain ⟨name, s₀, hname, hcase⟩ := addNode_cases h
  rw [nameFor_eq_aliasAt, Prod.mk.injEq] at hname
  obtain ⟨rfl, rfl⟩ := hname
  have hn : n.name = (aliasAt "n" s.anonymous p.name).1 ∧
      s'.anonymous = (aliasAt "n" s.anonymous p.name).2 := by
    rcases hcase with ⟨m, filters, -, hm, -, -, rfl, rfl⟩ | ⟨source, filters, -, -, -, -, -, rfl, rfl⟩
    · exact ⟨(mem_of_node? hm).2, rfl⟩
    · exact ⟨rfl, rfl⟩
  refine ⟨hn.1, hn.2, fun x => ?_, by rw [hedges, List.append_nil]⟩
  rcases hnodes with ⟨-, hmap, hmem⟩ | ⟨-, hadded, -⟩
  · have hsame : s'.nodes.map BoundNode.name = s.nodes.map BoundNode.name := by
      simpa [BoundNode.binding, Function.comp_def] using congrArg (List.map Binding.name) hmap
    obtain ⟨m, hm, hbinding⟩ := List.mem_map.mp hmem
    have hold : n.name ∈ s.nodes.map BoundNode.name :=
      List.mem_map.mpr ⟨m, hm, congrArg Binding.name hbinding⟩
    rw [hsame, List.mem_singleton]
    exact ⟨.inl, fun h => h.elim id fun hx => hx ▸ hold⟩
  · rw [hadded, List.map_append, List.mem_append, List.map_singleton]

theorem Binds.hop {source : String} {hop : Hop} (step : HopStep schema s source hop) :
    (hop.aliased s.anonymous).1 = ⟨hop.relationship, step.name, hop.node, step.node.name⟩ ∧
      Binds s step.scope (hop.aliased s.anonymous).2 [step.node.name]
        [(source, step.name, step.node.name)] := by
  have hname := step.nameFor_eq
  rw [nameFor_eq_aliasAt, Prod.mk.injEq] at hname
  obtain ⟨hedge, hnamed⟩ := hname
  obtain ⟨hnode, hbinds⟩ := Binds.addNode step.addNode_eq
  have hanonymous : step.named.anonymous = (aliasAt "e" s.anonymous hop.relationship.name).2 := by
    rw [← hnamed]
  have hstart : (step.named.putEdge (edgeOf hop.relationship step.name source "" step.columns
      step.types [])).anonymous = (aliasAt "e" s.anonymous hop.relationship.name).2 := hanonymous
  rw [hstart] at hnode hbinds
  have hbefore : step.named.nodes = s.nodes := by rw [← hnamed]
  refine ⟨?_, ?_, fun x => ?_, ?_⟩
  · rw [Hop.aliased, ← hnode, hedge]
  · exact step.scope_anonymous.trans hbinds.anonymous
  · rw [step.scope_nodes, hbinds.nodes, ← hbefore]
    rfl
  · rw [step.edges_eq, List.map_append]
    rfl

theorem Binds.addHops : ∀ {hops : List Hop} {s : Scope} {source : String},
    Scope.addHops schema s source hops = .ok s' →
      Binds s s' (aliasedHops s.anonymous hops).2
        ((aliasedHops s.anonymous hops).1.map AliasedHop.target)
        (linksFrom source (aliasedHops s.anonymous hops).1)
  | [], s, source, h => by
    cases h
    exact ⟨rfl, by simp [aliasedHops], by simp [aliasedHops, linksFrom]⟩
  | hop :: hops, s, source, h => by
    obtain ⟨s₁, target, h₁, h⟩ := addHops_cons h
    obtain ⟨step, rfl, rfl⟩ := exists_hopStep h₁
    obtain ⟨hfirst, hbinds⟩ := Binds.hop step
    have hrest := Binds.addHops h
    rw [hbinds.anonymous] at hrest
    rw [aliasedHops]
    dsimp only
    rw [hfirst]
    exact hbinds.trans hrest

theorem Binds.addPattern {p : Pattern} (h : Scope.addPattern schema s p = .ok s') :
    Binds s s' (p.aliased s.anonymous).2
      ((p.aliased s.anonymous).1.nodePlaces.map Prod.snd) (p.aliased s.anonymous).1.links := by
  obtain ⟨s₁, n, isNew, hnode, h⟩ := addPattern_cases h
  obtain ⟨hname, hfirst⟩ := Binds.addNode hnode
  have hcross : Binds s (if isNew then s₁.addSource ⟨n.source.table, n.name, .cross⟩ else s₁)
      (aliasAt "n" s.anonymous p.first.name).2 [n.name] [] := by
    cases isNew with
    | false => exact hfirst
    | true => exact ⟨hfirst.anonymous, hfirst.nodes, hfirst.links⟩
  have hrest := Binds.addHops h
  rw [hcross.anonymous] at hrest
  have hall := hcross.trans hrest
  rw [hname] at hall
  simpa [Pattern.aliased, AliasedPattern.nodePlaces, AliasedPattern.links, Function.comp_def]
    using hall

/-- **Patterns bind their aliases**, each relationship between the nodes that it joins. -/
theorem binds_of_addPatterns : ∀ {ps : List Pattern} {s : Scope},
    addPatterns schema s ps = .ok s' →
      Binds s s' (aliasedPatterns s.anonymous ps).2
        ((aliasedPatterns s.anonymous ps).1.flatMap AliasedPattern.nodePlaces |>.map Prod.snd)
        ((aliasedPatterns s.anonymous ps).1.flatMap AliasedPattern.links)
  | [], s, h => by
    cases h
    exact ⟨rfl, by simp [aliasedPatterns], by simp [aliasedPatterns]⟩
  | p :: ps, s, h => by
    rw [addPatterns, List.foldlM_cons] at h
    obtain ⟨s₁, h₁, h⟩ := Except.bind_eq_ok.mp h
    have hfirst := Binds.addPattern h₁
    have hrest := binds_of_addPatterns h
    rw [hfirst.anonymous] at hrest
    simpa [aliasedPatterns] using hfirst.trans hrest

/-! ## Going through patterns by their aliases -/

section Induction

variable {I : Scope → List (NodePattern × String) → List AliasedHop → Prop}
  {J : Scope → String → List (NodePattern × String) → List AliasedHop → Prop}

theorem addHops_aliased
    (hhop : ∀ {s : Scope} {source : String} {hop : Hop} {nodes : List (NodePattern × String)}
      {edges : List AliasedHop} (step : HopStep schema s source hop), J s source nodes edges →
        J step.scope step.node.name (nodes ++ [(hop.node, step.node.name)])
          (edges ++ [⟨hop.relationship, step.name, hop.node, step.node.name⟩])) :
    ∀ {hops : List Hop} {s : Scope} {source : String} {nodes : List (NodePattern × String)}
      {edges : List AliasedHop}, J s source nodes edges → addHops schema s source hops = .ok s' →
        ∃ target, J s' target
          (nodes ++ (aliasedHops s.anonymous hops).1.map fun h => (h.node, h.target))
          (edges ++ (aliasedHops s.anonymous hops).1)
  | [], s, source, nodes, edges, hs, h => by
    cases h
    exact ⟨source, by simpa [aliasedHops] using hs⟩
  | hop :: hops, s, source, nodes, edges, hs, h => by
    obtain ⟨s₁, target, h₁, h⟩ := addHops_cons h
    obtain ⟨step, rfl, rfl⟩ := exists_hopStep h₁
    obtain ⟨last, hlast⟩ := addHops_aliased hhop (hhop step hs) h
    obtain ⟨hfirst, hbinds⟩ := Binds.hop step
    rw [hbinds.anonymous] at hlast
    exact ⟨last, by simpa [aliasedHops, hfirst] using hlast⟩

/-- **What first nodes and hops keep is kept by patterns**, told with the nodes and hops that have
been read and their aliases. -/
theorem addPatterns_aliased
    (hfirst : ∀ {s s₁ : Scope} {p : NodePattern} {n : BoundNode} {isNew : Bool}
      {nodes : List (NodePattern × String)} {edges : List AliasedHop}, I s nodes edges →
        addNode schema s p = .ok (s₁, n, isNew) →
          J (if isNew then s₁.addSource ⟨n.source.table, n.name, .cross⟩ else s₁) n.name
            (nodes ++ [(p, n.name)]) edges)
    (hhop : ∀ {s : Scope} {source : String} {hop : Hop} {nodes : List (NodePattern × String)}
      {edges : List AliasedHop} (step : HopStep schema s source hop), J s source nodes edges →
        J step.scope step.node.name (nodes ++ [(hop.node, step.node.name)])
          (edges ++ [⟨hop.relationship, step.name, hop.node, step.node.name⟩]))
    (hlast : ∀ {s x nodes edges}, J s x nodes edges → I s nodes edges) :
    ∀ {ps : List Pattern} {s : Scope} (nodes : List (NodePattern × String))
      (edges : List AliasedHop), I s nodes edges → addPatterns schema s ps = .ok s' →
        I s' (nodes ++ (aliasedPatterns s.anonymous ps).1.flatMap AliasedPattern.nodes)
          (edges ++ (aliasedPatterns s.anonymous ps).1.flatMap AliasedPattern.hops)
  | [], s, nodes, edges, hs, h => by
    cases h
    simpa [aliasedPatterns] using hs
  | p :: ps, s, nodes, edges, hs, h => by
    rw [addPatterns, List.foldlM_cons] at h
    obtain ⟨t, hp, h⟩ := Except.bind_eq_ok.mp h
    have hanonymous := (Binds.addPattern hp).anonymous
    obtain ⟨s₁, n, isNew, hnode, hhops⟩ := addPattern_cases hp
    obtain ⟨hname, hbinds⟩ := Binds.addNode hnode
    have hsource : (if isNew then s₁.addSource ⟨n.source.table, n.name, .cross⟩ else s₁).anonymous =
        (aliasAt "n" s.anonymous p.first.name).2 := by
      rw [← hbinds.anonymous]
      split
      · rfl
      · rfl
    obtain ⟨x, hx⟩ := addHops_aliased hhop (hfirst hs hnode) hhops
    have hrest := addPatterns_aliased hfirst hhop hlast _ _ (hlast hx) h
    rw [hanonymous, hsource, hname] at hrest
    simpa [aliasedPatterns, Pattern.aliased, AliasedPattern.nodes] using hrest

end Induction

end Scope

/-! ## Aliases are fresh -/

open Query

/-- The aliases of the patterns of a plan.  Only node variables can share one, apart from a node
variable that is spelled like the alias of an anonymous node. -/
structure FreshAliases (qs : List AliasedPattern) (plan : Plan) : Prop where
  own : ∀ a ∈ qs.flatMap AliasedPattern.places, ∀ x, a.1 = some x → a.2 = x
  links : plan.edges.map BoundEdge.link = qs.flatMap AliasedPattern.links
  nodes : ∀ x, x ∈ plan.nodes.map BoundNode.name ↔
    ∃ a ∈ qs.flatMap AliasedPattern.nodePlaces, a.2 = x
  nodup : (plan.nodes.map BoundNode.name).Nodup
  relationships : ((qs.flatMap AliasedPattern.edgePlaces).map Prod.snd).Nodup
  apart : ∀ a ∈ qs.flatMap AliasedPattern.nodePlaces, ∀ b ∈ qs.flatMap AliasedPattern.edgePlaces,
    a.2 ≠ b.2
  anonymous : (qs.flatMap AliasedPattern.nodePlaces).Pairwise fun a b => a.2 = b.2 →
    (a.1 = some a.2 ∧ b.1 = some b.2) ∨
      ((a.1 = some a.2 ∧ b.1 = none ∨ a.1 = none ∧ b.1 = some b.2) ∧
        ∃ k, a.2 = "_n" ++ Numeral.natural k)

namespace Plan

variable {schema : Schema} {relations : List (String × Relation)} {ms : List Matching}
  {p : Projection} {plan : Plan}

/-- A name at a place is a variable there, or numbered. -/
theorem place_cases {a : Option String × String}
    (ha : a ∈ (aliasedPatterns 0 (ms.flatMap Matching.patterns)).1.flatMap AliasedPattern.places) :
    (∃ m ∈ ms, ∃ q ∈ m.patterns, some a.2 ∈ q.variables) ∨
      ∃ kind ∈ ["n", "e"], ∃ j, a.2 = "_" ++ kind ++ Numeral.natural j := by
  rcases (Scope.aliased_aliasedPatterns 0 (ms.flatMap Matching.patterns)).mem ha with
    hsome | ⟨kind, hkind, j, -, rfl⟩
  · obtain ⟨q, hq, ha⟩ := List.mem_flatMap.mp ha
    have hpattern : q.pattern ∈ ms.flatMap Matching.patterns := by
      rw [← map_pattern_aliasedPatterns 0 (ms.flatMap Matching.patterns)]
      exact List.mem_map_of_mem hq
    obtain ⟨m, hm, hpattern⟩ := List.mem_flatMap.mp hpattern
    refine .inl ⟨m, hm, q.pattern, hpattern, ?_⟩
    rw [q.variables_pattern, ← hsome]
    exact List.mem_map_of_mem ha
  · exact .inr ⟨kind, hkind, j, rfl⟩

/-- A plan binds the aliases of its patterns, and only anonymous nodes can fail to be fresh. -/
theorem freshAliases (h : Plan.ofClauses schema relations ms p = .ok plan) :
    FreshAliases (aliasedPatterns 0 (ms.flatMap Matching.patterns)).1 plan := by
  obtain ⟨s, projected, compiled, select, hs, -, rfl⟩ := ofClauses_eq_ok.mp h
  have hbinds := Scope.binds_of_addPatterns hs
  have haliased := Scope.aliased_aliasedPatterns 0 (ms.flatMap Matching.patterns)
  generalize hqs : (aliasedPatterns 0 (ms.flatMap Matching.patterns)).1 = qs at hbinds haliased ⊢
  have hown : ∀ a ∈ qs.flatMap AliasedPattern.places, ∀ x, a.1 = some x → a.2 = x :=
    fun a ha x hx => haliased.eq_variable ha hx
  have hlinks : s.edges.map BoundEdge.link = qs.flatMap AliasedPattern.links := hbinds.links
  have hnodes : ∀ x, x ∈ s.nodes.map BoundNode.name ↔
      ∃ a ∈ qs.flatMap AliasedPattern.nodePlaces, a.2 = x := by
    intro x
    simpa using hbinds.nodes x
  have hedges : s.edges.map BoundEdge.name = (qs.flatMap AliasedPattern.edgePlaces).map Prod.snd := by
    have hnames := congrArg (List.map fun l => l.2.1) hlinks
    rw [List.map_map, List.map_flatMap] at hnames
    simpa [List.map_flatMap, AliasedPattern.map_edge_links, BoundEdge.link, Function.comp_def]
      using hnames
  have hnames : (s.nodes.map BoundNode.name ++ s.edges.map BoundEdge.name).Nodup := by
    simpa [Scope.names, Scope.bindings, BoundNode.binding, BoundEdge.binding, Function.comp_def]
      using (Scope.introduces_of_addPatterns hs).nodup
  obtain ⟨hnodup, hedgeNodup, hdisjoint⟩ := List.nodup_append.mp hnames
  refine ⟨hown, hlinks, hnodes, hnodup, hedges ▸ hedgeNodup, fun a ha b hb => ?_, ?_⟩
  · refine hdisjoint a.2 ((hnodes a.2).mpr ⟨a, ha, rfl⟩) b.2 ?_
    rw [hedges]
    exact List.mem_map_of_mem hb
  · have hsub := AliasedPattern.nodePlaces_sublist_places qs
    refine (haliased.anonymous_differ.sublist hsub).imp_of_mem fun {a b} ha hb hdiffer he => ?_
    have hnumber := fun (c : Option String × String)
        (hc : c ∈ qs.flatMap AliasedPattern.nodePlaces) (hnone : c.1 = none) =>
      nodePlaces_aliasedPatterns 0 (ms.flatMap Matching.patterns) c (hqs ▸ hc) hnone
    cases hna : a.1 with
    | none =>
      cases hnb : b.1 with
      | none => exact absurd he (hdiffer hna hnb)
      | some y =>
        rw [hown b (hsub.subset hb) y hnb]
        exact .inr ⟨.inr ⟨rfl, rfl⟩, hnumber a ha hna⟩
    | some x =>
      rw [hown a (hsub.subset ha) x hna]
      cases hnb : b.1 with
      | none =>
        have hx : x = b.2 := (hown a (hsub.subset ha) x hna).symm.trans he
        exact .inr ⟨.inl ⟨rfl, rfl⟩, hx ▸ hnumber b hb hnb⟩
      | some y =>
        rw [hown b (hsub.subset hb) y hnb]
        exact .inl ⟨rfl, rfl⟩

/-- What a plan binds stands at one of the places of its patterns. -/
theorem exists_place_of_mem_names (h : Plan.ofClauses schema relations ms p = .ok plan) {x : String}
    (hx : (∃ n ∈ plan.nodes, n.name = x) ∨ ∃ e ∈ plan.edges, e.name = x) :
    ∃ a ∈ (aliasedPatterns 0 (ms.flatMap Matching.patterns)).1.flatMap
      AliasedPattern.places, a.2 = x := by
  have hfresh := freshAliases h
  rcases hx with ⟨n, hn, rfl⟩ | ⟨e, he, rfl⟩
  · obtain ⟨a, ha, hname⟩ := (hfresh.nodes n.name).mp (List.mem_map_of_mem hn)
    exact ⟨a, (AliasedPattern.nodePlaces_sublist_places _).subset ha, hname⟩
  · have hlink : e.link ∈ plan.edges.map BoundEdge.link := List.mem_map_of_mem he
    rw [hfresh.links] at hlink
    obtain ⟨q, hq, hlink⟩ := List.mem_flatMap.mp hlink
    have hplace : e.name ∈ q.edgePlaces.map Prod.snd := by
      rw [← q.map_edge_links]
      exact List.mem_map_of_mem (f := fun l => l.2.1) hlink
    obtain ⟨a, ha, hname⟩ := List.mem_map.mp hplace
    exact ⟨a, List.mem_flatMap.mpr ⟨q, hq, q.edgePlaces_subset ha⟩, hname⟩

/-- **Anonymous patterns are fresh, unless a node variable is spelled like one of their aliases.** -/
theorem freshAliases_of_ofClauses (h : Plan.ofClauses schema relations ms p = .ok plan) :
    FreshAliases (aliasedPatterns 0 (ms.flatMap Matching.patterns)).1 plan ∧
      ((∀ m ∈ ms, ∀ q ∈ m.patterns, ∀ x ∈ q.nodeNames, ∀ k, x ≠ "_n" ++ Numeral.natural k) →
        ((aliasedPatterns 0 (ms.flatMap Matching.patterns)).1.flatMap
          AliasedPattern.nodePlaces).Pairwise fun a b => a.2 = b.2 →
            a.1 = some a.2 ∧ b.1 = some b.2) := by
  have hfresh := freshAliases h
  refine ⟨hfresh, fun hvariables => ?_⟩
  have hplain : ∀ a ∈ (aliasedPatterns 0 (ms.flatMap Matching.patterns)).1.flatMap
      AliasedPattern.nodePlaces, a.1 = some a.2 → ∀ k, a.2 ≠ "_n" ++ Numeral.natural k := by
    intro a ha hsome
    obtain ⟨q, hq, hx⟩ := mem_nodeNames_of_nodePlaces ha hsome
    obtain ⟨m, hm, hq⟩ := List.mem_flatMap.mp hq
    exact hvariables m hm q hq a.2 hx
  refine hfresh.anonymous.imp_of_mem fun {a b} ha hb hshare he => ?_
  rcases hshare he with hboth | ⟨⟨hsome, -⟩ | ⟨-, hsome⟩, k, hk⟩
  · exact hboth
  · exact absurd hk (hplain a ha hsome k)
  · exact absurd (he ▸ hk) (hplain b hb hsome k)

theorem freshAliases_of_ofClauses_friends :
    ∃ plan, Plan.ofClauses friendsSchema [] friendsClauses { items := [⟨.var "a", none⟩] } =
        .ok plan ∧
      plan.edges.map BoundEdge.link =
        [("a", "_e0", "b"), ("b", "_e1", "_n2"), ("b", "r", "a")] ∧
      ((aliasedPatterns 0 (friendsClauses.flatMap Matching.patterns)).1.flatMap
        AliasedPattern.nodePlaces).Pairwise fun a b => a.2 = b.2 →
          a.1 = some a.2 ∧ b.1 = some b.2 := by
  have hlinks : (aliasedPatterns 0 (friendsClauses.flatMap Matching.patterns)).1.flatMap
      AliasedPattern.links = [("a", "_e0", "b"), ("b", "_e1", "_n2"), ("b", "r", "a")] := by
    decide +kernel
  have hvariables : ∀ m ∈ friendsClauses, ∀ q ∈ m.patterns, ∀ x ∈ q.nodeNames,
      ∀ k, x ≠ "_n" ++ Numeral.natural k := by
    rintro m hm q hq x hx k rfl
    have hall : ∀ m ∈ friendsClauses, ∀ q ∈ m.patterns, ∀ x ∈ q.nodeNames,
        x.toList.head? ≠ some '_' := by decide
    exact hall m hm q hq _ hx (by simp)
  have hok : (Plan.ofClauses friendsSchema [] friendsClauses
      { items := [⟨.var "a", none⟩] }).isOk = true := by decide +kernel
  rcases hplan : Plan.ofClauses friendsSchema [] friendsClauses
    { items := [⟨.var "a", none⟩] } with e | plan
  · rw [hplan] at hok
    cases hok
  · obtain ⟨hfresh, hapart⟩ := freshAliases_of_ofClauses hplan
    exact ⟨plan, rfl, hfresh.links.trans hlinks, hapart hvariables⟩

/-- The clause `MATCH (_n0), ()`. -/
def underscoreClauses : List Matching :=
  [⟨[⟨{ name := some "_n0" }, []⟩, ⟨{}, []⟩], none⟩]

/-- **A node variable can be spelled like the alias of an anonymous node**, which then stands for the
same row: two patterns, one binding and one source. -/
theorem anonymous_shares_underscore :
    ∃ plan, Plan.ofClauses friendsSchema [] underscoreClauses
        { items := [⟨.property (.var "_n0") "id", none⟩] } = .ok plan ∧
      plan.nodes.map BoundNode.name = ["_n0"] ∧
      plan.select.sources.map Relational.Source.name = ["_n0"] ∧
      (aliasedPatterns 0 (underscoreClauses.flatMap Matching.patterns)).1.flatMap
        AliasedPattern.nodePlaces = [(some "_n0", "_n0"), (none, "_n0")] := by
  have hnames : (match Plan.ofClauses friendsSchema [] underscoreClauses
        { items := [⟨.property (.var "_n0") "id", none⟩] } with
      | .ok plan => (plan.nodes.map BoundNode.name, plan.select.sources.map Relational.Source.name)
      | .error _ => ([], [])) = (["_n0"], ["_n0"]) := by decide +kernel
  rcases hplan : Plan.ofClauses friendsSchema [] underscoreClauses
    { items := [⟨.property (.var "_n0") "id", none⟩] } with e | plan
  · rw [hplan] at hnames
    cases hnames
  · rw [hplan] at hnames
    exact ⟨plan, rfl, congrArg Prod.fst hnames, congrArg Prod.snd hnames, by decide +kernel⟩

end Plan

end GraphSql
