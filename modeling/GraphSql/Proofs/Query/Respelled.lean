import Mathlib.Data.List.Forall2
import GraphSql.Proofs.Letters
import GraphSql.Query.Names

/-!
# Queries that spell labels and types differently

Two queries are spelled alike (`Query.Respelled`) when they differ only in the labels of their node
patterns, which have to be the same sets but for the case of ASCII letters, and in the case of the
ASCII letters of their relationship types.  The two then have clauses of the same kinds, with the same
variables, so what is made of their clauses is spelled alike, too.
-/

namespace GraphSql.Query

/-! ## Spelling -/

/-- Two lists hold the same labels, in any order and number, but for the case of ASCII letters. -/
def SameLabels (ls ms : List String) : Prop := ∀ x, x ∈ ls.map folded ↔ x ∈ ms.map folded

instance (ls ms : List String) : Decidable (SameLabels ls ms) :=
  decidable_of_iff (ls.map folded ⊆ ms.map folded ∧ ms.map folded ⊆ ls.map folded)
    ⟨fun h _ => ⟨fun hx => h.1 hx, fun hx => h.2 hx⟩,
      fun h => ⟨fun x hx => (h x).mp hx, fun x hx => (h x).mpr hx⟩⟩

/-- Two node patterns that differ only in how they spell their labels. -/
structure NodePattern.Respelled (p q : NodePattern) : Prop where
  name : p.name = q.name
  labels : SameLabels p.labels q.labels
  properties : p.properties = q.properties

/-- Two relationship patterns that differ only in how they spell their types. -/
structure RelationshipPattern.Respelled (p q : RelationshipPattern) : Prop where
  name : p.name = q.name
  types : List.Forall₂ (fun x y => folded x = folded y) p.types q.types
  properties : p.properties = q.properties
  direction : p.direction = q.direction

@[inherit_doc NodePattern.Respelled]
structure Hop.Respelled (h i : Hop) : Prop where
  relationship : h.relationship.Respelled i.relationship
  node : h.node.Respelled i.node

@[inherit_doc NodePattern.Respelled]
structure Pattern.Respelled (p q : Pattern) : Prop where
  first : p.first.Respelled q.first
  hops : List.Forall₂ Hop.Respelled p.hops q.hops

@[inherit_doc NodePattern.Respelled]
structure Matching.Respelled (m n : Matching) : Prop where
  patterns : List.Forall₂ Pattern.Respelled m.patterns n.patterns
  condition : m.condition = n.condition

@[inherit_doc NodePattern.Respelled]
inductive Action.Respelled : Action → Action → Prop
  | set (items : List Assignment) : Respelled (.set items) (.set items)
  | create {p q : Pattern} : p.Respelled q → Respelled (.create p) (.create q)

@[inherit_doc NodePattern.Respelled]
structure Loop.Respelled (l m : Loop) : Prop where
  name : l.name = m.name
  source : l.source = m.source
  actions : List.Forall₂ Action.Respelled l.actions m.actions

@[inherit_doc NodePattern.Respelled]
inductive Clause.Respelled : Clause → Clause → Prop
  | matching {m n : Matching} : m.Respelled n → Respelled (.matching m) (.matching n)
  | passing (w : WithProjection) : Respelled (.passing w) (.passing w)
  | returning (p : Projection) : Respelled (.returning p) (.returning p)
  | looping {l m : Loop} : l.Respelled m → Respelled (.looping l) (.looping m)

/-- Two queries that differ only in how their patterns spell labels and types. -/
def Respelled : Query → Query → Prop := List.Forall₂ Clause.Respelled

/-! ## Labels -/

theorem SameLabels.refl (ls : List String) : SameLabels ls ls := fun _ => Iff.rfl

theorem SameLabels.isEmpty_eq {ls ms : List String} (h : SameLabels ls ms) :
    ls.isEmpty = ms.isEmpty := by
  have hnil : ls.map folded = [] ↔ ms.map folded = [] := by
    rw [List.eq_nil_iff_forall_not_mem, List.eq_nil_iff_forall_not_mem]
    exact forall_congr' fun x => not_congr (h x)
  rw [Bool.eq_iff_iff, List.isEmpty_iff, List.isEmpty_iff, ← List.map_eq_nil_iff (f := folded), hnil,
    List.map_eq_nil_iff]

/-- Whatever is computed from each label without regard to the case of ASCII letters is the same. -/
theorem SameLabels.mem_map {ls ms : List String} (h : SameLabels ls ms) {β : Type} {f : String → β}
    (hf : ∀ x y, folded x = folded y → f x = f y) (y : β) : y ∈ ls.map f ↔ y ∈ ms.map f := by
  have hsub : ∀ {ls ms : List String}, SameLabels ls ms → y ∈ ls.map f → y ∈ ms.map f := by
    intro ls ms hlabels hy
    obtain ⟨l, hl, rfl⟩ := List.mem_map.mp hy
    obtain ⟨m, hm, hfolded⟩ := List.mem_map.mp ((hlabels _).mp (List.mem_map_of_mem hl))
    exact List.mem_map.mpr ⟨m, hm, hf m l hfolded⟩
  exact ⟨hsub h, hsub fun x => (h x).symm⟩

/-! ## The same spelling -/

theorem Pattern.Respelled.refl (p : Pattern) : p.Respelled p := by
  have hnode : ∀ n : NodePattern, n.Respelled n := fun n => ⟨rfl, .refl n.labels, rfl⟩
  have hedge : ∀ r : RelationshipPattern, r.Respelled r :=
    fun r => ⟨rfl, List.forall₂_same.mpr fun _ _ => rfl, rfl, rfl⟩
  exact ⟨hnode p.first, List.forall₂_same.mpr fun h _ => ⟨hedge h.relationship, hnode h.node⟩⟩

theorem Matching.Respelled.refl (m : Matching) : m.Respelled m :=
  ⟨List.forall₂_same.mpr fun p _ => .refl p, rfl⟩

theorem Loop.Respelled.refl (l : Loop) : l.Respelled l := by
  refine ⟨rfl, rfl, List.forall₂_same.mpr fun a _ => ?_⟩
  cases a with
  | set items => exact .set items
  | create p => exact .create (.refl p)

theorem Respelled.refl (q : Query) : q.Respelled q := by
  refine List.forall₂_same.mpr fun c _ => ?_
  cases c with
  | matching m => exact .matching (.refl m)
  | passing w => exact .passing w
  | returning p => exact .returning p
  | looping l => exact .looping (.refl l)

/-! ## Variables -/

theorem Pattern.Respelled.nodeNames {p q : Pattern} (h : p.Respelled q) :
    p.nodeNames = q.nodeNames := by
  have hhops : ∀ {hs is : List Hop}, List.Forall₂ Hop.Respelled hs is →
      (hs.map Hop.node).filterMap NodePattern.name = (is.map Hop.node).filterMap NodePattern.name := by
    intro hs is hall
    induction hall with
    | nil => rfl
    | cons hop _ ih => rw [List.map_cons, List.map_cons, List.filterMap_cons, List.filterMap_cons,
        hop.node.name, ih]
  rw [Pattern.nodeNames, Pattern.nodeNames, nodes, nodes, List.filterMap_cons, List.filterMap_cons,
    h.first.name, hhops h.hops]

theorem flatMap_eq_of_forall₂ {α β : Type} {R : α → α → Prop} {f : α → List β}
    (hf : ∀ a b, R a b → f a = f b) {xs ys : List α} (h : List.Forall₂ R xs ys) :
    xs.flatMap f = ys.flatMap f := by
  induction h with
  | nil => rfl
  | cons hab _ ih => rw [List.flatMap_cons, List.flatMap_cons, hf _ _ hab, ih]

theorem nodeNames_of_respelled {ms ns : List Matching} (h : List.Forall₂ Matching.Respelled ms ns) :
    nodeNames ms = nodeNames ns := by
  have hnames := flatMap_eq_of_forall₂ (f := fun m => m.patterns.flatMap Pattern.nodeNames)
    (fun m n hmn => flatMap_eq_of_forall₂ (fun _ _ hpq => hpq.nodeNames) hmn.patterns) h
  rw [nodeNames, nodeNames, hnames]

theorem Loop.Respelled.outerNames {l m : Loop} (h : l.Respelled m) : l.outerNames = m.outerNames := by
  have hnames : l.actions.flatMap Action.nodeNames = m.actions.flatMap Action.nodeNames := by
    refine flatMap_eq_of_forall₂ (fun a b hab => ?_) h.actions
    cases hab with
    | set items => rfl
    | create hpq => exact hpq.nodeNames
  rw [Loop.outerNames, Loop.outerNames, hnames, h.name]

/-! ## Clauses -/

namespace Respelled

variable {q r : Query}

theorem any_eq (h : q.Respelled r) {p : Clause → Bool} (hp : ∀ c d, c.Respelled d → p c = p d) :
    q.any p = r.any p := by
  induction h with
  | nil => rfl
  | cons hcd _ ih => rw [List.any_cons, List.any_cons, hp _ _ hcd, ih]

theorem any_isLooping (h : q.Respelled r) : q.any Clause.isLooping = r.any Clause.isLooping :=
  h.any_eq fun _ _ hcd => by cases hcd <;> rfl

theorem shape_eq (h : q.Respelled r) : q.shape = r.shape := by
  have hpassing : q.any Clause.isPassing = r.any Clause.isPassing :=
    h.any_eq fun _ _ hcd => by cases hcd <;> rfl
  rw [shape, shape, h.any_isLooping, hpassing]

theorem matchings (h : q.Respelled r) :
    List.Forall₂ Matching.Respelled (q.filterMap Clause.matching?) (r.filterMap Clause.matching?) := by
  induction h with
  | nil => exact .nil
  | cons hcd _ ih =>
    cases hcd with
    | matching hmn => exact .cons hmn ih
    | passing w => exact ih
    | returning p => exact ih
    | looping _ => exact ih

theorem dropLast (h : q.Respelled r) : Respelled q.dropLast r.dropLast := by
  rw [List.dropLast_eq_take, List.dropLast_eq_take, h.length_eq]
  exact List.forall₂_take _ h

theorem append {q' r' : Query} (h : q.Respelled r) (h' : q'.Respelled r') :
    Respelled (q ++ q') (r ++ r') :=
  List.rel_append h h'

theorem returning (p : Projection) : Respelled [.returning p] [.returning p] :=
  .cons (.returning p) .nil

theorem rel_getLast? (h : q.Respelled r) : Option.Rel Clause.Respelled q.getLast? r.getLast? := by
  induction h with
  | nil => exact .none
  | cons hcd hrest ih =>
    cases hrest with
    | nil => exact .some hcd
    | cons _ _ =>
      rw [List.getLast?_cons_cons, List.getLast?_cons_cons]
      exact ih

theorem eq_returning_iff (h : q.Respelled r) {p : Projection} :
    q = [.returning p] ↔ r = [.returning p] := by
  constructor
  · rintro rfl
    obtain _ | ⟨⟨⟩, ⟨⟩⟩ := h
    rfl
  · rintro rfl
    obtain _ | ⟨⟨⟩, ⟨⟩⟩ := h
    rfl

theorem eq_passing_iff (h : q.Respelled r) {w : WithProjection} {p : Projection} :
    q = [.passing w, .returning p] ↔ r = [.passing w, .returning p] := by
  constructor
  · rintro rfl
    obtain _ | ⟨⟨⟩, hrest⟩ := h
    rw [(eq_returning_iff hrest).mp rfl]
  · rintro rfl
    obtain _ | ⟨⟨⟩, hrest⟩ := h
    rw [(eq_returning_iff hrest).mpr rfl]

/-- The parts of queries in one stage. -/
theorem rel_plain? (h : q.Respelled r) :
    Option.Rel (fun a b => List.Forall₂ Matching.Respelled a.1 b.1 ∧ a.2 = b.2) q.plain? r.plain? := by
  induction h with
  | nil => exact .none
  | @cons c d q r hcd hrest ih =>
    cases hcd with
    | passing w => exact .none
    | returning p => exact .none
    | looping _ => exact .none
    | matching hmn =>
      by_cases hlast : ∃ p, q = [.returning p]
      · obtain ⟨p, rfl⟩ := hlast
        obtain rfl := (eq_returning_iff hrest).mp rfl
        exact .some ⟨.cons hmn .nil, rfl⟩
      · rw [plain?, plain?]
        · generalize plain? q = a at ih ⊢
          generalize plain? r = b at ih ⊢
          cases ih with
          | none => exact .none
          | some hab => exact .some ⟨.cons hmn hab.1, hab.2⟩
        · exact fun p hp => hlast ⟨p, (eq_returning_iff hrest).mpr hp⟩
        · exact fun p hp => hlast ⟨p, hp⟩

/-- The parts of queries in two stages. -/
theorem rel_staged? (h : q.Respelled r) :
    Option.Rel (fun a b => List.Forall₂ Matching.Respelled a.1 b.1 ∧ a.2 = b.2) q.staged?
      r.staged? := by
  induction h with
  | nil => exact .none
  | @cons c d q r hcd hrest ih =>
    cases hcd with
    | passing w => exact .none
    | returning p => exact .none
    | looping _ => exact .none
    | matching hmn =>
      by_cases hlast : ∃ w p, q = [.passing w, .returning p]
      · obtain ⟨w, p, rfl⟩ := hlast
        obtain rfl := (eq_passing_iff hrest).mp rfl
        exact .some ⟨.cons hmn .nil, rfl⟩
      · rw [staged?, staged?]
        · generalize staged? q = a at ih ⊢
          generalize staged? r = b at ih ⊢
          cases ih with
          | none => exact .none
          | some hab => exact .some ⟨.cons hmn hab.1, by rw [hab.2]⟩
        · exact fun w p hp => hlast ⟨w, p, (eq_passing_iff hrest).mpr hp⟩
        · exact fun w p hp => hlast ⟨w, p, hp⟩

/-- The queries before a loop. -/
theorem rel_beforeLoop? (h : q.Respelled r) :
    Option.Rel Respelled q.beforeLoop? r.beforeLoop? := by
  unfold beforeLoop?
  have hlast := h.rel_getLast?
  generalize q.getLast? = c at hlast ⊢
  generalize r.getLast? = d at hlast ⊢
  cases hlast with
  | none => exact .some h
  | some hcd =>
    cases hcd with
    | passing w =>
      dsimp only
      split
      · exact .some (h.dropLast.append (returning _))
      · exact .some (h.append (returning _))
    | matching _ =>
      dsimp only
      rw [nodeNames_of_respelled h.matchings]
      split
      · exact .none
      · exact .some (h.append (returning _))
    | returning p => exact .some h
    | looping _ => exact .some h

end Respelled

end GraphSql.Query
