import GraphSql.Proofs.Scope.Conditions
import GraphSql.Proofs.Scope.Texts

/-!
# Patterns without their texts

Patterns and the same patterns with their texts emptied are read side by side.  Texts stand only in
the conditions on properties, so all else that is collected is the same: the two scopes have the same
`outline`, which also makes them resolve names in the same way.

The conditions are those of the patterns, with all names read in the final scope, and are equal but for
their texts if no text stands next to a column of integers (`Scope.blank_conditions`).
-/

namespace GraphSql

/-! ## Outlines -/

/-- A node binding but for the conditions on its properties. -/
def BoundNode.outline (n : BoundNode) : BoundNode := { n with filters := [] }

@[inherit_doc BoundNode.outline]
def BoundEdge.outline (e : BoundEdge) : BoundEdge := { e with filters := [] }

namespace Query

/-- The comparisons that the properties of a pattern stand for. -/
def propertyTests (x : String) (properties : Option Properties) : List Expr :=
  (properties.getD []).map fun entry => .compare .eq (.property (.var x) entry.1) entry.2

/-- The comparisons of a hop. -/
def AliasedHop.tests (h : AliasedHop) : List Expr :=
  propertyTests h.target h.node.properties ++ propertyTests h.edge h.relationship.properties

/-- The comparisons of a pattern. -/
def AliasedPattern.tests (q : AliasedPattern) : List Expr :=
  propertyTests q.start q.first.properties ++ q.hops.flatMap AliasedHop.tests

end Query

namespace Scope

open Query (NodePattern Hop Pattern Properties AliasedHop AliasedPattern aliasedPatterns)
open Query.Expr (textsFit)
open Relational (Expr)

/-- A scope but for its conditions. -/
def outline (s : Scope) : Scope :=
  { s with nodes := s.nodes.map BoundNode.outline, edges := s.edges.map BoundEdge.outline
           conditions := [] }

variable {schema : Schema} {s t : Scope}

theorem node?_outline (s : Scope) (x : String) :
    s.outline.node? x = (s.node? x).map BoundNode.outline := by
  rw [node?, outline, List.find?_map]
  rfl

theorem edge?_outline (s : Scope) (x : String) :
    s.outline.edge? x = (s.edge? x).map BoundEdge.outline := by
  rw [edge?, outline, List.find?_map]
  rfl

theorem derived_outline (s : Scope) : s.outline.derived = s.derived := by
  rw [derived, outline, List.filterMap_map]
  rfl

theorem stored?_outline (s : Scope) (x : String) : s.outline.stored? x = s.stored? x := by
  rw [stored?, stored?, node?_outline, edge?_outline]
  cases s.node? x with
  | some n => rfl
  | none => cases s.edge? x <;> rfl

theorem lookupProperty_outline (s : Scope) (x key : String) :
    s.outline.lookupProperty x key = s.lookupProperty x key := by
  rw [lookupProperty, lookupProperty, stored?_outline, derived_outline]

theorem lookupName_outline (s : Scope) (x : String) : s.outline.lookupName x = s.lookupName x := by
  rw [lookupName, lookupName, node?_outline, edge?_outline, lookupDerived, lookupDerived,
    derived_outline]
  cases s.node? x with
  | some n => rfl
  | none => cases s.edge? x <;> rfl

theorem variableColumns_outline (s : Scope) (x scope : String) :
    s.outline.variableColumns x scope = s.variableColumns x scope := by
  rw [variableColumns, variableColumns, stored?_outline, derived_outline]

/-- The outline decides what names stand for. -/
theorem sameNames_of_outline (h : s.outline = t.outline) : s.SameNames t where
  name x := by rw [← lookupName_outline, ← h, lookupName_outline]
  property x key := by rw [← lookupProperty_outline, ← h, lookupProperty_outline]
  columns x scope := by rw [← variableColumns_outline, ← h, variableColumns_outline]

/-! ### What is put into a scope -/

theorem outline_putNode (s : Scope) (n : BoundNode) :
    (s.putNode n).outline = s.outline.putNode n.outline := by
  have hnodes : (putBy (fun m => m.name == n.name) n s.nodes).map BoundNode.outline =
      putBy (fun m => m.name == n.name) n.outline (s.nodes.map BoundNode.outline) :=
    map_putBy (fun _ => by rfl) n s.nodes
  exact congrArg (fun nodes => { s.outline with nodes }) hnodes

theorem outline_putEdge (s : Scope) (e : BoundEdge) :
    (s.putEdge e).outline = s.outline.putEdge e.outline := by
  have hedges : (putBy (fun d => d.name == e.name) e s.edges).map BoundEdge.outline =
      putBy (fun d => d.name == e.name) e.outline (s.edges.map BoundEdge.outline) :=
    map_putBy (fun _ => by rfl) e s.edges
  exact congrArg (fun edges => { s.outline with edges }) hedges

theorem outline_addConditions (s : Scope) (cs : List Expr) :
    (s.addConditions cs).outline = s.outline := rfl

theorem outline_addJoin (s : Scope) (edge : String)
    (conditions : Expr × Expr) (target : BoundNode) (isNew : Bool) :
    (s.addJoin edge conditions target isNew).outline =
      s.outline.addJoin edge conditions target.outline isNew := by
  cases isNew <;> rfl

theorem nodeSource_outline (s : Scope) (name : String) (labels : List String) :
    nodeSource schema s.outline name labels = nodeSource schema s name labels := rfl

/-! ## Conditions on properties -/

theorem SameNames.propertyCondition (h : s.SameNames t) (x : String) (entry : String × Query.Expr) :
    Except.Agree (fun a b => textsFit s.operandType
        (.compare .eq (.property (.var x) entry.1) entry.2) = true → a.blank = b.blank)
      (s.propertyCondition x entry) (t.propertyCondition x (entry.1, entry.2.blank)) := by
  unfold Scope.propertyCondition
  rw [h.property]
  cases hcolumn : s.lookupProperty x entry.1 with
  | error err => exact .error err
  | ok column =>
    refine (agree_typed (h.compile entry.2)).bind fun a b hab => .ok fun hfit => ?_
    have htype : s.operandType (.property (.var x) entry.1) = column.type := by
      rw [operandType, hcolumn]
      rfl
    simp only [textsFit, Query.Expr.sidesFit, Bool.and_eq_true, htype] at hfit
    rw [Expr.blank, Expr.blank, hab hfit.1.1.2 hfit.2]

theorem SameNames.propertyConditions (h : s.SameNames t) {P : Prop} {x : String}
    {properties : Option Properties}
    (hfit : P → ∀ e ∈ Query.propertyTests x properties, textsFit s.operandType e = true) :
    Except.Agree (fun cs ds => P → cs.map Expr.blank = ds.map Expr.blank)
      (s.propertyConditions x properties)
      (t.propertyConditions x (properties.map Query.Expr.blankEntries)) := by
  have hentries : (properties.map Query.Expr.blankEntries).getD [] =
      (properties.getD []).map fun entry => (entry.1, entry.2.blank) := by
    cases properties with
    | none => rfl
    | some entries => exact Query.Expr.blankEntries_eq_map entries
  rw [Scope.propertyConditions, Scope.propertyConditions, hentries, List.mapM_map]
  have hall : Except.Agree (List.Forall₂ fun a b => P → a.blank = b.blank)
      ((properties.getD []).mapM (s.propertyCondition x))
      ((properties.getD []).mapM fun entry => t.propertyCondition x (entry.1, entry.2.blank)) := by
    refine .mapM fun entry hentry => (h.propertyCondition x entry).mono fun a b hab hP => hab ?_
    exact hfit hP _ (List.mem_map_of_mem hentry)
  exact hall.mono fun cs ds hcs hP => map_eq_of_forall₂ hcs fun a b hab => hab hP

/-! ## Patterns -/

theorem outline_nameFor (h : s.outline = t.outline) (kind : String) (variableName : Option String) :
    ∃ name s₀ t₀, s.nameFor kind variableName = (name, s₀) ∧
      t.nameFor kind variableName = (name, t₀) ∧ s₀.outline = t₀.outline := by
  cases variableName with
  | some name => exact ⟨name, s, t, rfl, rfl, h⟩
  | none =>
    have hcount : s.anonymous = t.anonymous := (congrArg Scope.anonymous h :)
    refine ⟨_, _, _, rfl, by rw [nameFor, hcount], ?_⟩
    exact congrArg (fun u : Scope => { u with anonymous := u.anonymous + 1 }) h

theorem isSome_of_outline (h : s.outline = t.outline) (x : String) :
    (s.node? x).isSome = (t.node? x).isSome ∧ (s.edge? x).isSome = (t.edge? x).isSome := by
  constructor
  · rw [← Option.isSome_map (f := BoundNode.outline), ← node?_outline, h, node?_outline,
      Option.isSome_map]
  · rw [← Option.isSome_map (f := BoundEdge.outline), ← edge?_outline, h, edge?_outline,
      Option.isSome_map]

/-- The outcomes of adding a node in two runs. -/
structure SameNode (a b : Scope × BoundNode × Bool) : Prop where
  scope : a.1.outline = b.1.outline
  node : a.2.1.outline = b.2.1.outline
  isNew : a.2.2 = b.2.2

theorem agree_addNode (h : s.outline = t.outline) (p : NodePattern) :
    Except.Agree SameNode (addNode schema s p) (addNode schema t p.blank) := by
  obtain ⟨name, s₀, t₀, hs, ht, h₀⟩ := outline_nameFor h "n" p.name
  replace ht : t.nameFor "n" p.blank.name = (name, t₀) := ht
  have hsame := sameNames_of_outline h₀
  have hnode : (s₀.node? name).map BoundNode.outline = (t₀.node? name).map BoundNode.outline := by
    rw [← node?_outline, ← node?_outline, h₀]
  unfold addNode
  rw [hs, ht]
  dsimp only
  cases hm : s₀.node? name with
  | some m =>
    rw [hm, Option.map_some, eq_comm, Option.map_eq_some_iff] at hnode
    obtain ⟨m', hm', houtline⟩ := hnode
    have hmname : m'.name = m.name := (congrArg BoundNode.name houtline :)
    have hsource : m'.source = m.source := (congrArg BoundNode.source houtline :)
    rw [hm']
    dsimp only
    rw [hmname, hsource]
    refine .ite Iff.rfl (fun _ => .error _) fun _ => ?_
    refine (hsame.propertyConditions (P := False) nofun).bind fun cs ds _ => .ok ⟨?_, rfl, rfl⟩
    dsimp only
    rw [outline_addConditions, outline_addConditions, outline_putNode, outline_putNode, h₀]
    rfl
  | none =>
    rw [hm, Option.map_none, eq_comm, Option.map_eq_none_iff] at hnode
    rw [hnode]
    dsimp only
    refine .ite (by rw [(isSome_of_outline h₀ name).2]) (fun _ => .error _) fun _ => ?_
    rw [← nodeSource_outline s₀, ← nodeSource_outline t₀, h₀]
    refine (Except.Agree.refl (fun _ => rfl) (nodeSource schema t₀.outline name p.labels)).bind ?_
    rintro source _ rfl
    have hput : (s₀.putNode { name, source }).outline = (t₀.putNode { name, source }).outline := by
      rw [outline_putNode, outline_putNode, h₀]
    refine ((sameNames_of_outline hput).propertyConditions (P := False) nofun).bind fun cs ds _ => ?_
    refine .ok ⟨?_, rfl, rfl⟩
    dsimp only
    rw [outline_addConditions, outline_addConditions, outline_putNode (s₀.putNode _),
      outline_putNode (t₀.putNode _), hput]
    rfl

theorem agree_addHop (h : s.outline = t.outline) (source : String) (hop : Hop) :
    Except.Agree (fun a b => a.1.outline = b.1.outline ∧ a.2 = b.2) (addHop schema s source hop)
      (addHop schema t source hop.blank) := by
  obtain ⟨name, s₀, t₀, hs, ht, h₀⟩ := outline_nameFor h "e" hop.relationship.name
  replace ht : t.nameFor "e" hop.blank.relationship.name = (name, t₀) := ht
  obtain ⟨hnode, hedge⟩ := isSome_of_outline h₀ name
  unfold addHop
  dsimp only
  rw [hs, ht]
  dsimp only
  refine .ite (by rw [hnode, hedge]) (fun _ => .error _) fun _ => ?_
  refine (Except.Agree.refl (fun _ => rfl) (edgeTypes schema hop.relationship.types)).bind ?_
  rintro ⟨columns, types⟩ _ rfl
  -- the edge is bound, then the node behind it
  have hput : ∀ {u v : Scope}, u.outline = v.outline → ∀ e d : BoundEdge, e.outline = d.outline →
      (u.putEdge e).outline = (v.putEdge d).outline := by
    intro u v huv e d hed
    rw [outline_putEdge, outline_putEdge, huv, hed]
  refine (agree_addNode (hput h₀ _ _ rfl) hop.node).bind ?_
  rintro ⟨s₁, n, isNew⟩ ⟨t₁, m, isNew'⟩ ⟨h₁, hn, hnew⟩
  dsimp only at h₁ hn hnew
  subst hnew
  have hname : n.name = m.name := (congrArg BoundNode.name hn :)
  have hsame := sameNames_of_outline h₁
  dsimp only
  rw [hsame.property, hsame.property, hname]
  refine (Except.Agree.refl (fun _ => rfl) (s₁.lookupProperty source Schema.nodeId)).bind ?_
  rintro sourceKey _ rfl
  refine (Except.Agree.refl (fun _ => rfl) (s₁.lookupProperty m.name Schema.nodeId)).bind ?_
  rintro targetKey _ rfl
  -- the properties of the edge are read when all else is in place
  have hjoin : ∀ on : Expr × Expr,
      ((s₁.addJoin name on n isNew).addConditions (typeConditions name types)).outline =
        ((t₁.addJoin name on m isNew).addConditions (typeConditions name types)).outline := by
    intro on
    rw [outline_addConditions, outline_addConditions, outline_addJoin, outline_addJoin, h₁, hn]
  have hready := hput (hjoin (joinConditions hop.relationship.direction name sourceKey.expr
    targetKey.expr)) (edgeOf hop.relationship name source m.name columns types []) _ rfl
  refine ((sameNames_of_outline hready).propertyConditions (P := False) nofun).bind fun cs ds _ => ?_
  exact .ok ⟨hput hready _ _ rfl, rfl⟩

theorem agree_addHops : ∀ {hops : List Hop} {s t : Scope} {source : String},
    s.outline = t.outline → Except.Agree (fun a b => a.outline = b.outline)
      (addHops schema s source hops) (addHops schema t source (hops.map Hop.blank))
  | [], _, _, _, h => .ok h
  | hop :: hops, s, t, source, h => by
    rw [List.map_cons, addHops, addHops]
    refine (agree_addHop h source hop).bind ?_
    rintro ⟨s₁, target⟩ ⟨t₁, _⟩ ⟨h₁, rfl⟩
    exact agree_addHops h₁

theorem agree_addPattern (h : s.outline = t.outline) (p : Pattern) :
    Except.Agree (fun a b => a.outline = b.outline) (addPattern schema s p)
      (addPattern schema t p.blank) := by
  refine (agree_addNode h p.first).bind ?_
  rintro ⟨s₁, n, isNew⟩ ⟨t₁, m, isNew'⟩ ⟨h₁, hn, hnew⟩
  dsimp only at h₁ hn hnew
  subst hnew
  have hname : n.name = m.name := (congrArg BoundNode.name hn :)
  have hsource : n.source = m.source := (congrArg BoundNode.source hn :)
  dsimp only
  rw [hname, hsource]
  refine agree_addHops ?_
  cases isNew with
  | false => exact h₁
  | true => exact congrArg (addSource · ⟨m.source.table, m.name, .cross⟩) h₁

/-- **Patterns that are equal but for their texts make scopes with the same outline.** -/
theorem agree_addPatterns (ps : List Pattern) (h : s.outline = t.outline) :
    Except.Agree (fun a b => a.outline = b.outline) (addPatterns schema s ps)
      (addPatterns schema t (ps.map Pattern.blank)) := by
  rw [addPatterns, addPatterns, List.foldlM_map]
  exact .foldlM (fun p _ a b hab => agree_addPattern hab p) h

/-! ## Conditions of patterns -/

section

variable {P : Prop}

theorem SameNames.hopConditions (h : s.SameNames t) {q : AliasedHop}
    (hfit : P → ∀ e ∈ q.tests, textsFit s.operandType e = true) :
    Except.Agree (fun cs ds => P → cs.map Expr.blank = ds.map Expr.blank)
      (s.hopConditions schema q) (t.hopConditions schema q.blank) := by
  have hnode := h.propertyConditions fun hP e he => hfit hP e (List.mem_append_left _ he)
  have hedge := h.propertyConditions fun hP e he => hfit hP e (List.mem_append_right _ he)
  refine hnode.bind fun as bs hab => ?_
  refine (Except.Agree.refl (fun _ => rfl) (edgeTypes schema q.relationship.types)).bind ?_
  rintro ⟨columns, types⟩ _ rfl
  refine hedge.bind fun cs ds hcd => .ok fun hP => ?_
  rw [List.map_append, List.map_append, List.map_append, List.map_append, hab hP, hcd hP]
  rfl

theorem SameNames.patternConditions (h : s.SameNames t) {q : AliasedPattern}
    (hfit : P → ∀ e ∈ q.tests, textsFit s.operandType e = true) :
    Except.Agree (fun cs ds => P → cs.map Expr.blank = ds.map Expr.blank)
      (s.patternConditions schema q) (t.patternConditions schema q.blank) := by
  have hfirst := h.propertyConditions fun hP e he => hfit hP e (List.mem_append_left _ he)
  refine hfirst.bind fun as bs hab => ?_
  have hhops : Except.Agree (List.Forall₂ fun cs ds =>
      P → cs.map Expr.blank = ds.map Expr.blank)
      (q.hops.mapM (s.hopConditions schema))
      (q.hops.mapM fun hop => t.hopConditions schema hop.blank) := by
    refine .mapM fun hop hhop => h.hopConditions fun hP e he => hfit hP e ?_
    exact List.mem_append_right _ (List.mem_flatMap.mpr ⟨hop, hhop, he⟩)
  have hmap : q.blank.hops.mapM (t.hopConditions schema) =
      q.hops.mapM fun hop => t.hopConditions schema hop.blank := List.mapM_map
  rw [hmap]
  refine hhops.bind fun css dss hcss => .ok fun hP => ?_
  rw [List.map_append, List.map_append, hab hP, List.map_flatten, List.map_flatten,
    map_eq_of_forall₂ hcss fun _ _ hcs => hcs hP]

end

/-- **Patterns that are equal but for their texts put conditions that are equal but for their
texts.** -/
theorem blank_conditions {ps : List Pattern} (hs : addPatterns schema {} ps = .ok s)
    (ht : addPatterns schema {} (ps.map Pattern.blank) = .ok t) (h : s.outline = t.outline)
    (hfit : ∀ q ∈ (aliasedPatterns 0 ps).1, ∀ e ∈ q.tests, textsFit s.operandType e = true) :
    s.conditions.map Expr.blank = t.conditions.map Expr.blank := by
  obtain ⟨css, hcss, hconditions⟩ := conditions_of_addPatterns hs
  obtain ⟨dss, hdss, hconditions'⟩ := conditions_of_addPatterns ht
  rw [Query.aliasedPatterns_blank, List.mapM_map] at hdss
  have hagree : Except.Agree (List.Forall₂ fun cs ds =>
      cs.map Expr.blank = ds.map Expr.blank)
      ((aliasedPatterns 0 ps).1.mapM (s.patternConditions schema))
      ((aliasedPatterns 0 ps).1.mapM (t.patternConditions schema ∘ AliasedPattern.blank)) := by
    refine .mapM fun q hq => ?_
    exact ((sameNames_of_outline h).patternConditions (P := True) fun _ => hfit q hq).mono
      fun _ _ hcs => hcs trivial
  rw [hcss, hdss] at hagree
  cases hagree with
  | ok hall =>
    rw [hconditions, hconditions', List.map_flatten, List.map_flatten,
      map_eq_of_forall₂ hall fun _ _ hcs => hcs]

end Scope

end GraphSql
