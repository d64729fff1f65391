import GraphSql.Proofs.Relational.Eval
import GraphSql.Proofs.Schema
import GraphSql.Proofs.Scope.Sources
import GraphSql.Proofs.Words

/-!
# Patterns mean what they say

Each pattern of a node or relationship stands for a row, which goes by an alias: the variable of the
pattern, or a name of its own when it has none.  An `AliasedPattern` is a pattern together with these
aliases, and its meaning (`AliasedPattern.Holds`) is read off the arrows and types alone.  The
conditions of the select statement are true on rows just if all patterns hold there
(`Plan.holds_iff_patterns`).

What reading a part of a pattern adds to a scope is kept in `Reading`: the aliases it uses and the
condition it adds.  Readings are put together by `Reading.trans`.
-/

namespace GraphSql.Query

/-- A hop with the aliases of its relationship and of the node that it leads to. -/
structure AliasedHop where
  relationship : RelationshipPattern
  edge : String
  node : NodePattern
  target : String

structure AliasedPattern where
  first : NodePattern
  start : String
  hops : List AliasedHop

namespace AliasedHop

def hop (h : AliasedHop) : Hop := ⟨h.relationship, h.node⟩

/-- The variables of a hop and the aliases at their places. -/
def places (h : AliasedHop) : List (Option String × String) :=
  [(h.relationship.name, h.edge), (h.node.name, h.target)]

end AliasedHop

namespace AliasedPattern

def pattern (q : AliasedPattern) : Pattern := ⟨q.first, q.hops.map AliasedHop.hop⟩

/-- The variables of a pattern and the aliases at their places. -/
def places (q : AliasedPattern) : List (Option String × String) :=
  (q.first.name, q.start) :: q.hops.flatMap AliasedHop.places

end AliasedPattern

/-! ## The meaning of a pattern -/

open Relational (Row)

/-- An edge leads from one node to another as the arrow says. -/
def Direction.Leads (d : Direction) (u e v : Row) : Prop :=
  match d with
  | .outgoing => e.source = u.id ∧ e.target = v.id
  | .incoming => e.target = u.id ∧ e.source = v.id
  | .both => (e.source = u.id ∧ e.target = v.id) ∨ (e.target = u.id ∧ e.source = v.id)

/-- An edge has one of the types of a pattern in the spelling of the schema, or the pattern has no
types. -/
def RelationshipPattern.Admits (schema : Schema) (r : RelationshipPattern) (e : Row) : Prop :=
  r.types = [] ∨ ∃ t ∈ r.types, ∃ entry, schema.typeTable? t = some entry ∧ e.type = entry.name

/-- The hops hold one after the other, from the node `u` on. -/
def HopsHold (schema : Schema) (rows : String → Row) : String → List AliasedHop → Prop
  | _, [] => True
  | u, h :: hs =>
    (h.relationship.direction.Leads (rows u) (rows h.edge) (rows h.target) ∧
      h.relationship.Admits schema (rows h.edge)) ∧ HopsHold schema rows h.target hs

def AliasedPattern.Holds (schema : Schema) (rows : String → Row) (q : AliasedPattern) : Prop :=
  HopsHold schema rows q.start q.hops

/-! ## Patterns without properties and with proper variables -/

/-- The variables of a pattern, with the places that have none. -/
def Pattern.variables (p : Pattern) : List (Option String) :=
  p.first.name :: p.hops.flatMap fun h => [h.relationship.name, h.node.name]

theorem AliasedPattern.variables_pattern (q : AliasedPattern) :
    q.pattern.variables = q.places.map Prod.fst := by
  simp [pattern, places, Pattern.variables, AliasedHop.places, AliasedHop.hop, List.flatMap_map,
    List.map_flatMap]

/-- No property is asked for. -/
structure Pattern.Bare (p : Pattern) : Prop where
  first : p.first.properties = none
  hops : ∀ h ∈ p.hops, h.relationship.properties = none ∧ h.node.properties = none

/-- A name such as `_n1` or `_e20`. -/
def Numbered (x : String) : Prop :=
  ∃ kind ∈ ["n", "e"], ∃ digits : List Char, digits ≠ [] ∧ (∀ d ∈ digits, d.isDigit = true) ∧
    x = "_" ++ kind ++ String.ofList digits

end GraphSql.Query

namespace GraphSql.Scope

open Query
open Relational (Row)

variable {schema : Schema} {s s' : Scope} {rows : String → Row}
  {places : List (Option String × String)} {p : NodePattern} {n : BoundNode} {k k' : Nat}
  {kind : String} {isNew : Bool}

/-! ## Readings -/

/-- The join conditions and further conditions of a scope are true on rows. -/
def Holds (s : Scope) (rows : String → Row) : Prop :=
  (∀ x ∈ s.sources, x.join.Holds rows) ∧ ∀ e ∈ s.conditions, e.Holds rows

/-- Aliases at places of patterns: a variable stands for itself, and places without one are numbered
from `k` to `k'`. -/
inductive Aliased : Nat → List (Option String × String) → Nat → Prop
  | nil (k : Nat) : Aliased k [] k
  | named (x : String) {k k' : Nat} {rest : List (Option String × String)} :
    Aliased k rest k' → Aliased k ((some x, x) :: rest) k'
  | anonymous (kind : String) {k k' : Nat} {rest : List (Option String × String)} :
    kind ∈ ["n", "e"] → Aliased (k + 1) rest k' →
      Aliased k ((none, "_" ++ kind ++ Numeral.natural k) :: rest) k'

theorem Aliased.append {k'' : Nat} {as bs : List (Option String × String)} (h : Aliased k as k')
    (h' : Aliased k' bs k'') : Aliased k (as ++ bs) k'' := by
  induction h with
  | nil k => exact h'
  | named x _ ih => exact .named x (ih h')
  | anonymous kind hk _ ih => exact .anonymous kind hk (ih h')

/-- What a part of a pattern adds to a scope: aliases, and a condition on rows. -/
structure Reading (s s' : Scope) (places : List (Option String × String))
    (meaning : (String → Row) → Prop) : Prop where
  stored : s'.Stored
  aliased : Aliased s.anonymous places s'.anonymous
  names : ∀ x, x ∈ s'.names ↔ x ∈ s.names ∨ ∃ a ∈ places, a.2 = x
  holds : ∀ rows, s'.Holds rows ↔ s.Holds rows ∧ meaning rows

theorem Reading.trans {s₁ s₂ s₃ : Scope} {as bs : List (Option String × String)}
    {M N : (String → Row) → Prop} (h : Reading s₁ s₂ as M) (h' : Reading s₂ s₃ bs N) :
    Reading s₁ s₃ (as ++ bs) fun rows => M rows ∧ N rows where
  stored := h'.stored
  aliased := h.aliased.append h'.aliased
  names x := by
    rw [h'.names, h.names]
    simp only [List.mem_append, or_and_right, exists_or, or_assoc]
  holds rows := by rw [h'.holds, h.holds, and_assoc]

/-! ## Reading a node -/

theorem aliased_nameFor {name : String} {variableName : Option String} {s₀ : Scope}
    (hk : kind ∈ ["n", "e"]) (h : s.nameFor kind variableName = (name, s₀)) :
    Aliased s.anonymous [(variableName, name)] s₀.anonymous := by
  rcases nameFor_cases h with ⟨rfl, rfl⟩ | ⟨rfl, rfl, rfl⟩
  · exact .named name (.nil _)
  · exact .anonymous kind hk (.nil _)

/-- A node pattern without properties gets its alias and adds no condition. -/
theorem bare_addNode (hp : p.properties = none) (h : addNode schema s p = .ok (s', n, isNew)) :
    Aliased s.anonymous [(p.name, n.name)] s'.anonymous ∧ s'.conditions = s.conditions := by
  obtain ⟨name, s₀, hname, hcase⟩ := addNode_cases h
  have haliased := aliased_nameFor (by simp) hname
  obtain ⟨-, -, -, -, hconditions⟩ := nameFor_bindings hname
  have hnone : ∀ (t : Scope) {filters : List Relational.Expr},
      t.propertyConditions name p.properties = .ok filters → filters = [] := by
    intro t filters hfilters
    rw [hp] at hfilters
    exact (Except.pure_eq_ok.mp hfilters).symm
  rcases hcase with ⟨m, filters, -, hm, -, hfilters, rfl, rfl⟩ |
    ⟨source, filters, -, -, -, -, hfilters, rfl, rfl⟩
  · obtain rfl := hnone _ hfilters
    obtain rfl := (mem_of_node? hm).2
    exact ⟨haliased, by simpa [addConditions, putNode] using hconditions⟩
  · obtain rfl := hnone _ hfilters
    exact ⟨haliased, by simpa [addConditions, putNode] using hconditions⟩

theorem names_addNode (h : addNode schema s p = .ok (s', n, isNew)) (x : String) :
    x ∈ s'.names ↔ x ∈ s.names ∨ n.name = x := by
  obtain ⟨hedges, -, -, ⟨-, hmap, hmem⟩ | ⟨-, hnodes, -⟩⟩ := addNode_bindings h
  · have hn : n.name ∈ s.names :=
      List.mem_map.mpr ⟨n.binding, List.mem_append_left _ hmem, rfl⟩
    rw [names, bindings, hmap, hedges]
    exact ⟨.inl, fun h => h.elim id fun h => h ▸ hn⟩
  · simp only [mem_names, hnodes, hedges, List.mem_append, List.mem_singleton, or_and_right,
      exists_or, exists_eq_left]
    rw [or_assoc, or_assoc, or_comm (a := n.name = x)]

theorem Reading.node (hs : s.Stored) (hp : p.properties = none)
    (h : addNode schema s p = .ok (s', n, isNew)) :
    Reading s s' [(p.name, n.name)] fun _ => True where
  stored := hs.addNode h
  aliased := (bare_addNode hp h).1
  names x := by simpa using names_addNode h x
  holds rows := by
    obtain ⟨-, hsources, -, -⟩ := addNode_bindings h
    rw [Holds, Holds, hsources, (bare_addNode hp h).2, and_true]

/-! ## Reading a hop -/

theorem joinConditions_holds {d : Direction} {u e v c c' : String}
    (hc : Text.sameName c Schema.nodeId = true) (hc' : Text.sameName c' Schema.nodeId = true) :
    ((joinConditions d e (.column u c) (.column v c')).1.Holds rows ∧
      (joinConditions d e (.column u c) (.column v c')).2.Holds rows) ↔
      d.Leads (rows u) (rows e) (rows v) := by
  have hu := (rows u).column_nodeId hc
  have hv := (rows v).column_nodeId hc'
  have hs := (rows e).column_edgeSource
  have ht := (rows e).column_edgeTarget
  cases d with
  | outgoing =>
    simp only [joinConditions, Relational.Expr.Holds, Relational.Expr.eval, hu, hv, hs, ht,
      Relational.equal_integer, Direction.Leads]
    exact and_congr_right' eq_comm
  | incoming =>
    simp only [joinConditions, Relational.Expr.Holds, Relational.Expr.eval, hu, hv, hs, ht,
      Relational.equal_integer, Direction.Leads]
    exact and_congr_right' eq_comm
  | both =>
    simp only [joinConditions, Relational.Expr.Holds, Relational.Expr.eval, Relational.Expr.evalAll,
      hu, hv, hs, ht, Relational.equal_integer, Relational.Datum.isIn_eq_true, Direction.Leads,
      List.mem_cons, List.not_mem_nil, or_false, exists_eq_or_imp, exists_eq_left]
    by_cases hsource : (rows e).source = (rows u).id
    · -- the edge starts at the first node, so the second is where it ends
      rw [if_pos hsource, Relational.equal_integer]
      omega
    · rw [if_neg hsource, Relational.equal_integer]
      omega

theorem typeConditions_holds {e : String} {types : List String} :
    (∀ c ∈ typeConditions e types, c.Holds rows) ↔ types = [] ∨ (rows e).type ∈ types := by
  have htype := (rows e).column_edgeType
  match types with
  | [] => simp [typeConditions]
  | [t] =>
    simp [typeConditions, Relational.Expr.Holds, Relational.Expr.eval, htype, Relational.equal_text]
  | t :: t' :: ts =>
    simp [typeConditions, Relational.Expr.Holds, Relational.Expr.eval, htype,
      Relational.Expr.evalAll_eq_map, Relational.Datum.isIn_eq_true, Relational.equal_text]

theorem admits_iff_of_edgeTypes {r : RelationshipPattern} {columns : List Column}
    {types : List String} (h : edgeTypes schema r.types = .ok (columns, types)) (e : Row) :
    r.Admits schema e ↔ types = [] ∨ e.type ∈ types := by
  rcases edgeTypes_cases h with ⟨hnone, -, rfl⟩ | ⟨hne, entries, hentries, -, rfl⟩
  · simp [RelationshipPattern.Admits, hnone]
  · obtain ⟨t, ht⟩ := List.exists_mem_of_ne_nil _ hne
    obtain ⟨entry, hentry, -⟩ := Except.exists_result_of_mem_mapM hentries ht
    have hne' : entries ≠ [] := List.ne_nil_of_mem hentry
    rw [RelationshipPattern.Admits, or_iff_right hne, or_iff_right (by simpa using hne')]
    constructor
    · rintro ⟨t, ht, entry, hentry, he⟩
      obtain ⟨entry', hmem, hentry'⟩ := Except.exists_result_of_mem_mapM hentries ht
      rw [Schema.typeTable_eq_ok, hentry] at hentry'
      cases hentry'
      exact List.mem_map.mpr ⟨entry, hmem, he.symm⟩
    · intro hmem
      obtain ⟨entry, hentry, he⟩ := List.mem_map.mp hmem
      obtain ⟨t, ht, hfound⟩ := Except.exists_of_mem_mapM hentries hentry
      exact ⟨t, ht, entry, Schema.typeTable_eq_ok.mp hfound, he.symm⟩

namespace HopStep

variable {source : String} {hop : Hop} (step : HopStep schema s source hop)

theorem filters_eq_nil (h : hop.relationship.properties = none) : step.filters = [] := by
  have hfilters := step.filters_eq
  rw [h] at hfilters
  exact (Except.pure_eq_ok.mp hfilters).symm

theorem newSources_hold :
    (∀ x ∈ step.newSources, x.join.Holds rows) ↔
      step.conditions.1.Holds rows ∧ step.conditions.2.Holds rows := by
  unfold newSources
  split
  · simp [Relational.Join.holds_iff, Relational.Join.conditions]
  · simp [Relational.Join.holds_iff, Relational.Join.conditions]

theorem conditions_hold (hs : step.bound.Stored) :
    (step.conditions.1.Holds rows ∧ step.conditions.2.Holds rows) ↔
      hop.relationship.direction.Leads (rows source) (rows step.name) (rows step.node.name) := by
  obtain ⟨c, hsource, hc⟩ := hs.lookupProperty step.sourceKey_eq
  obtain ⟨c', htarget, hc'⟩ := hs.lookupProperty step.targetKey_eq
  rw [conditions, hsource, htarget]
  exact joinConditions_holds hc hc'

/-- The relationship of a hop gets its alias. -/
theorem reading_edge (hs : s.Stored) : Reading s
    (step.named.putEdge (edgeOf hop.relationship step.name source "" step.columns step.types []))
    [(hop.relationship.name, step.name)] fun _ => True := by
  obtain ⟨hnodes, -, hsources, -, hconditions⟩ := nameFor_bindings step.nameFor_eq
  have haliased := aliased_nameFor (by simp) step.nameFor_eq
  refine ⟨hs.edge step, haliased, fun x => ?_, fun rows => ?_⟩
  · rw [mem_names, mem_names, step.edges_putEdge rfl, ← hnodes]
    simp [putEdge, edgeOf, or_assoc]
  · rw [Holds, Holds, ← hsources, ← hconditions, and_true]
    rfl

/-- The conditions of a hop say what its arrow and its types say. -/
theorem reading_link (hs : step.bound.Stored) (h : hop.relationship.properties = none) :
    Reading step.bound step.scope [] fun rows =>
      hop.relationship.direction.Leads (rows source) (rows step.name) (rows step.node.name) ∧
        hop.relationship.Admits schema (rows step.name) := by
  refine ⟨hs.scope, step.scope_anonymous ▸ .nil _, fun x => ?_, fun rows => ?_⟩
  · simp [mem_names, step.scope_nodes, step.edges_eq, step.bound_edges, edge, edgeOf]
  · rw [Holds, Holds, step.scope_sources, step.scope_conditions, step.filters_eq_nil h,
      List.append_nil, List.forall_mem_append, List.forall_mem_append, step.newSources_hold,
      step.conditions_hold hs, typeConditions_holds, ← admits_iff_of_edgeTypes step.edgeTypes_eq]
    exact and_and_and_comm

theorem reading (hs : s.Stored) (hr : hop.relationship.properties = none)
    (hn : hop.node.properties = none) :
    Reading s step.scope [(hop.relationship.name, step.name), (hop.node.name, step.node.name)]
      fun rows =>
        hop.relationship.direction.Leads (rows source) (rows step.name) (rows step.node.name) ∧
          hop.relationship.Admits schema (rows step.name) := by
  have hedge := step.reading_edge hs
  have hnode := Reading.node hedge.stored hn step.addNode_eq
  have hlink := step.reading_link hnode.stored hr
  simpa using (hedge.trans hnode).trans hlink

end HopStep

/-! ## Reading patterns -/

theorem exists_aliasedHops : ∀ {hops : List Hop} {s : Scope} {source : String}, s.Stored →
    (∀ h ∈ hops, h.relationship.properties = none ∧ h.node.properties = none) →
    addHops schema s source hops = .ok s' →
    ∃ hs : List AliasedHop, hs.map AliasedHop.hop = hops ∧
      Reading s s' (hs.flatMap AliasedHop.places) fun rows => HopsHold schema rows source hs
  | [], s, source, hstored, _, h => by
    cases h
    exact ⟨[], rfl, hstored, .nil _, by simp, by simp [HopsHold]⟩
  | hop :: hops, s, source, hstored, hbare, h => by
    obtain ⟨s₁, target, h₁, h⟩ := addHops_cons h
    obtain ⟨step, rfl, rfl⟩ := exists_hopStep h₁
    obtain ⟨hr, hn⟩ := hbare hop List.mem_cons_self
    have hfirst := step.reading hstored hr hn
    obtain ⟨hs, hmap, hrest⟩ := exists_aliasedHops hfirst.stored
      (fun x hx => hbare x (List.mem_cons_of_mem hop hx)) h
    refine ⟨⟨hop.relationship, step.name, hop.node, step.node.name⟩ :: hs, ?_, hfirst.trans hrest⟩
    rw [List.map_cons, hmap]
    rfl

theorem exists_aliasedPattern {p : Pattern} (hstored : s.Stored) (hp : p.Bare)
    (h : addPattern schema s p = .ok s') :
    ∃ q : AliasedPattern, q.pattern = p ∧ Reading s s' q.places (q.Holds schema) := by
  obtain ⟨s₁, n, isNew, hnode, h⟩ := addPattern_cases h
  have hfirst := Reading.node hstored hp.first hnode
  have hcross : Reading s (if isNew then s₁.addSource ⟨n.source.table, n.name, .cross⟩ else s₁)
      [(p.first.name, n.name)] fun _ => True := by
    cases isNew with
    | false => exact hfirst
    | true =>
      refine ⟨⟨hfirst.stored.relations, hfirst.stored.nodes⟩, hfirst.aliased, hfirst.names,
        fun rows => ?_⟩
      rw [← hfirst.holds rows]
      simp [Holds, addSource, or_imp, forall_and, Relational.Join.holds_iff,
        Relational.Join.conditions]
  obtain ⟨hs, hmap, hrest⟩ := exists_aliasedHops hcross.stored hp.hops h
  refine ⟨⟨p.first, n.name, hs⟩, ?_, ?_⟩
  · rw [AliasedPattern.pattern, hmap]
  · simpa [AliasedPattern.places, AliasedPattern.Holds] using hcross.trans hrest

theorem exists_aliasedPatterns : ∀ {ps : List Pattern} {s : Scope}, s.Stored → (∀ p ∈ ps, p.Bare) →
    addPatterns schema s ps = .ok s' →
    ∃ qs : List AliasedPattern, qs.map AliasedPattern.pattern = ps ∧
      Reading s s' (qs.flatMap AliasedPattern.places) fun rows => ∀ q ∈ qs, q.Holds schema rows
  | [], s, hstored, _, h => by
    cases h
    exact ⟨[], rfl, hstored, .nil _, by simp, by simp⟩
  | p :: ps, s, hstored, hbare, h => by
    rw [addPatterns, List.foldlM_cons] at h
    obtain ⟨s₁, h₁, h₂⟩ := Except.bind_eq_ok.mp h
    obtain ⟨q, rfl, hfirst⟩ := exists_aliasedPattern hstored (hbare p List.mem_cons_self) h₁
    obtain ⟨qs, rfl, hrest⟩ := exists_aliasedPatterns hfirst.stored
      (fun x hx => hbare x (List.mem_cons_of_mem _ hx)) h₂
    refine ⟨q :: qs, rfl, ?_⟩
    simpa using hfirst.trans hrest

/-! ## Aliases are shared by variables only -/

theorem numbered_natural (hk : kind ∈ ["n", "e"]) (k : Nat) :
    Numbered ("_" ++ kind ++ Numeral.natural k) :=
  ⟨kind, hk, Nat.toDigits 10 k, Nat.toDigits_ne_nil,
    fun _ hd => Nat.isDigit_of_mem_toDigits (by decide) (by decide) hd, rfl⟩

/-- Different numbers make different names, for nodes and edges alike. -/
theorem natural_injective {kind' : String} (hk : kind ∈ ["n", "e"]) (hk' : kind' ∈ ["n", "e"])
    {j : Nat} (h : "_" ++ kind ++ Numeral.natural j = "_" ++ kind' ++ Numeral.natural k) :
    j = k := by
  have hlist := congrArg String.toList h
  simp only [List.mem_cons, List.not_mem_nil, or_false] at hk hk'
  rcases hk with rfl | rfl <;> rcases hk' with rfl | rfl <;>
    simp [Numeral.natural] at hlist <;> exact toDigits_injective hlist

theorem Aliased.mem (h : Aliased k places k') {a : Option String × String} (ha : a ∈ places) :
    a.1 = some a.2 ∨ ∃ kind ∈ ["n", "e"], ∃ j, k ≤ j ∧
      a = (none, "_" ++ kind ++ Numeral.natural j) := by
  induction h with
  | nil k => cases ha
  | named x _ ih =>
    rcases List.mem_cons.mp ha with rfl | ha
    · exact .inl rfl
    · exact ih ha
  | @anonymous kind k _ _ hk _ ih =>
    rcases List.mem_cons.mp ha with rfl | ha
    · exact .inr ⟨kind, hk, k, Nat.le_refl k, rfl⟩
    · refine (ih ha).imp id fun ⟨kind', hk', j, hj, he⟩ => ⟨kind', hk', j, by omega, he⟩

/-- The alias of a place with a variable is the variable. -/
theorem Aliased.eq_variable (h : Aliased k places k') {a : Option String × String} (ha : a ∈ places)
    {x : String} (hx : a.1 = some x) : a.2 = x := by
  rcases h.mem ha with hsome | ⟨kind, -, j, -, rfl⟩
  · exact Option.some.inj (hsome.symm.trans hx)
  · cases hx

theorem Aliased.shared (h : Aliased k places k')
    (hv : ∀ a ∈ places, ∀ x, a.1 = some x → ¬ Numbered x) :
    places.Pairwise fun a b => a.2 = b.2 → a.1 = some a.2 ∧ b.1 = some b.2 := by
  induction h with
  | nil k => exact .nil
  | named x hrest ih =>
    refine .cons (fun b hb he => ⟨rfl, ?_⟩) (ih fun a ha => hv a (List.mem_cons_of_mem _ ha))
    rcases hrest.mem hb with hb | ⟨kind, hk, j, -, rfl⟩
    · exact hb
    · -- a variable is not of the form that anonymous patterns get
      obtain rfl : x = "_" ++ kind ++ Numeral.natural j := he
      exact absurd (numbered_natural hk j) (hv _ List.mem_cons_self _ rfl)
  | @anonymous kind k _ _ hk hrest ih =>
    refine .cons (fun b hb he => ?_) (ih fun a ha => hv a (List.mem_cons_of_mem _ ha))
    rcases hrest.mem hb with hsome | ⟨kind', hk', j, hj, rfl⟩
    · have hb := hv b (List.mem_cons_of_mem _ hb) b.2 hsome
      rw [← he] at hb
      exact absurd (numbered_natural hk k) hb
    · have := natural_injective hk hk' he
      omega

end GraphSql.Scope

namespace GraphSql

open Query

/-- The names of a select statement are the aliases of the places of patterns: each is introduced
once, a variable is its own alias, and only places with the same variable share one. -/
structure ProperAliases (places : List (Option String × String)) (names : List String) : Prop where
  own : ∀ a ∈ places, ∀ x, a.1 = some x → a.2 = x
  shared : places.Pairwise fun a b => a.2 = b.2 → a.1 = some a.2 ∧ b.1 = some b.2
  introduced : ∀ x, x ∈ names ↔ ∃ a ∈ places, a.2 = x
  nodup : names.Nodup

namespace Plan

/-- **The conditions of a plan say what its patterns say**, for patterns without properties and
clauses without conditions of their own: on rows for its aliases, all of them are true just if each
edge leads from the node before it to the node behind it as the arrow says and has a type of its
pattern. -/
theorem holds_iff_patterns {schema : Schema} {ms : List Matching} {p : Projection} {plan : Plan}
    (hconditions : ∀ m ∈ ms, m.condition = none)
    (hbare : ∀ m ∈ ms, ∀ q ∈ m.patterns, q.Bare)
    (hvariables : ∀ m ∈ ms, ∀ q ∈ m.patterns, ∀ x, some x ∈ q.variables → ¬ Numbered x)
    (h : Plan.ofClauses schema [] ms p = .ok plan) :
    ∃ qs : List AliasedPattern, qs.map AliasedPattern.pattern = ms.flatMap Matching.patterns ∧
      ProperAliases (qs.flatMap AliasedPattern.places)
        (plan.select.sources.map Relational.Source.name) ∧
      ∀ rows, plan.select.Holds rows ↔ ∀ q ∈ qs, q.Holds schema rows := by
  obtain ⟨s, projected, compiled, select, hs, hselect, rfl⟩ := Plan.ofClauses_eq_ok.mp h
  have hpatterns : ∀ {q}, q ∈ ms.flatMap Matching.patterns → ∃ m ∈ ms, q ∈ m.patterns :=
    List.mem_flatMap.mp
  have hsources := hselect.sources
  obtain ⟨qs, hqs, hreading⟩ := Scope.exists_aliasedPatterns (s := {}) ⟨rfl, by simp⟩
    (fun q hq => let ⟨m, hm, hq⟩ := hpatterns hq; hbare m hm q hq) hs
  refine ⟨qs, hqs, ?_, fun rows => ?_⟩
  · have hintroduces := Scope.introduces_of_addPatterns hs
    have hnames : (select.sources.map Relational.Source.name).Perm s.names :=
      hsources ▸ hintroduces.names_perm
    have hproper : ∀ a ∈ qs.flatMap AliasedPattern.places, ∀ x, a.1 = some x → ¬ Numbered x := by
      intro a ha x hx
      obtain ⟨q, hq, ha⟩ := List.mem_flatMap.mp ha
      obtain ⟨m, hm, hmem⟩ := hpatterns (hqs ▸ List.mem_map_of_mem hq)
      refine hvariables m hm q.pattern hmem x ?_
      rw [q.variables_pattern, ← hx]
      exact List.mem_map_of_mem ha
    refine ⟨fun a ha x hx => hreading.aliased.eq_variable ha hx, hreading.aliased.shared hproper,
      fun x => ?_, hnames.nodup_iff.mpr hintroduces.nodup⟩
    rw [hnames.mem_iff, hreading.names]
    exact or_iff_right List.not_mem_nil
  · have hnone : ms.filterMap Matching.condition = [] := by simpa using hconditions
    have hcompiled := hselect.compileAll_eq
    rw [hnone] at hcompiled
    cases hcompiled
    rw [Relational.Select.Holds, hsources, hselect.conditions, List.append_nil]
    exact (hreading.holds rows).trans (and_iff_right (by simp [Scope.Holds]))

/-- Two types of relationships between nodes without labels. -/
def friendsSchema : Schema where
  labelTables := []
  typeTables := [⟨"KNOWS", []⟩, ⟨"LIKES", []⟩]
  nodeColumns := Schema.coreNodeColumns
  edgeColumns := Schema.coreEdgeColumns

/-- The clauses `MATCH (a)-[:knows|likes]->(b)<--()` and `MATCH (b)-[r:knows]-(a)`. -/
def friendsClauses : List Matching :=
  [⟨[⟨{ name := some "a" },
      [⟨{ types := ["knows", "likes"], direction := .outgoing }, { name := some "b" }⟩,
        ⟨{ direction := .incoming }, {}⟩]⟩], none⟩,
    ⟨[⟨{ name := some "b" },
      [⟨{ name := some "r", types := ["knows"], direction := .both }, { name := some "a" }⟩]⟩],
      none⟩]

theorem holds_iff_patterns_friends :
    ∃ plan, Plan.ofClauses friendsSchema [] friendsClauses { items := [⟨.var "a", none⟩] } =
        .ok plan ∧
      plan.select.sources.map Relational.Source.name = ["a", "_e0", "b", "_e1", "_n2", "r"] ∧
      ∃ qs : List AliasedPattern, qs.length = 2 ∧
        ∀ rows, plan.select.Holds rows ↔ ∀ q ∈ qs, q.Holds friendsSchema rows := by
  have hnames : (match Plan.ofClauses friendsSchema [] friendsClauses
        { items := [⟨.var "a", none⟩] } with
      | .ok plan => plan.select.sources.map Relational.Source.name
      | .error _ => []) = ["a", "_e0", "b", "_e1", "_n2", "r"] := by decide +kernel
  have hbare : ∀ m ∈ friendsClauses, ∀ q ∈ m.patterns, q.Bare := by
    intro m hm q hq
    rcases List.mem_pair.mp hm with rfl | rfl
    · obtain rfl := List.mem_singleton.mp hq
      exact ⟨rfl, by simp⟩
    · obtain rfl := List.mem_singleton.mp hq
      exact ⟨rfl, by simp⟩
  have hvariables : ∀ m ∈ friendsClauses, ∀ q ∈ m.patterns, ∀ x, some x ∈ q.variables →
      ¬ Numbered x := by
    rintro m hm q hq x hx ⟨kind, -, digits, -, -, rfl⟩
    have hall : ∀ m ∈ friendsClauses, ∀ q ∈ m.patterns, ∀ v ∈ q.variables,
        (v.any fun x => x.toList.head? == some '_') = false := by decide
    simpa using hall m hm q hq _ hx
  rcases hplan : Plan.ofClauses friendsSchema [] friendsClauses
    { items := [⟨.var "a", none⟩] } with e | plan
  · rw [hplan] at hnames
    cases hnames
  · rw [hplan] at hnames
    obtain ⟨qs, hqs, -, hholds⟩ := holds_iff_patterns (by simp [friendsClauses]) hbare hvariables hplan
    refine ⟨plan, rfl, hnames, qs, ?_, hholds⟩
    simpa [friendsClauses] using congrArg List.length hqs

end Plan

end GraphSql
