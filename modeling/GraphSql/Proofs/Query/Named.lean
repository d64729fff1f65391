import GraphSql.Query.Clause

/-!
# The names of a query

`Clause.Holds P E` says that the names of a clause outside of its expressions satisfy `P` and that its
expressions satisfy `E`; it goes down the syntax, one part at a time.  `Clause.Named P` is the case that
every name that is written in a clause satisfies `P`: variables, keys, labels, types, functions and
the names given to items.
-/

namespace GraphSql.Query

variable (P : String → Prop)

mutual

/-- All names in an expression satisfy `P`. -/
def Expr.Named : Expr → Prop
  | .var name => P name
  | .property e key => Expr.Named e ∧ P key
  | .null => True
  | .boolean _ => True
  | .integer _ => True
  | .number _ => True
  | .text _ => True
  | .list es => Expr.NamedAll es
  | .map entries => Expr.NamedEntries entries
  | .not e => Expr.Named e
  | .negate e => Expr.Named e
  | .binary _ l r => Expr.Named l ∧ Expr.Named r
  | .compare _ l r => Expr.Named l ∧ Expr.Named r
  | .nullTest _ e => Expr.Named e
  | .call f _ args => P f ∧ Expr.NamedAll args
  | .callStar f => P f

@[inherit_doc Expr.Named]
def Expr.NamedAll : List Expr → Prop
  | [] => True
  | e :: es => Expr.Named e ∧ Expr.NamedAll es

/-- All keys, and all names in the values, satisfy `P`. -/
def Expr.NamedEntries : List (String × Expr) → Prop
  | [] => True
  | (key, e) :: entries => P key ∧ Expr.Named e ∧ Expr.NamedEntries entries

end

variable {P}

theorem Expr.namedAll_iff {es : List Expr} : Expr.NamedAll P es ↔ ∀ e ∈ es, e.Named P := by
  induction es with
  | nil => simp [Expr.NamedAll]
  | cons e es ih => simp [Expr.NamedAll, ih]

theorem Expr.namedEntries_iff {entries : List (String × Expr)} :
    Expr.NamedEntries P entries ↔ ∀ p ∈ entries, P p.1 ∧ p.2.Named P := by
  induction entries with
  | nil => simp [Expr.NamedEntries]
  | cons p entries ih => simp [Expr.NamedEntries, ih, and_assoc]

mutual

theorem Expr.named_of_forall (h : ∀ x, P x) : ∀ e : Expr, e.Named P
  | .var name => h name
  | .property e key => ⟨Expr.named_of_forall h e, h key⟩
  | .null => trivial
  | .boolean _ => trivial
  | .integer _ => trivial
  | .number _ => trivial
  | .text _ => trivial
  | .list es => Expr.namedAll_of_forall h es
  | .map entries => Expr.namedEntries_of_forall h entries
  | .not e => Expr.named_of_forall h e
  | .negate e => Expr.named_of_forall h e
  | .binary _ l r => ⟨Expr.named_of_forall h l, Expr.named_of_forall h r⟩
  | .compare _ l r => ⟨Expr.named_of_forall h l, Expr.named_of_forall h r⟩
  | .nullTest _ e => Expr.named_of_forall h e
  | .call f _ args => ⟨h f, Expr.namedAll_of_forall h args⟩
  | .callStar f => h f

theorem Expr.namedAll_of_forall (h : ∀ x, P x) : ∀ es : List Expr, Expr.NamedAll P es
  | [] => trivial
  | e :: es => ⟨Expr.named_of_forall h e, Expr.namedAll_of_forall h es⟩

theorem Expr.namedEntries_of_forall (h : ∀ x, P x) :
    ∀ entries : List (String × Expr), Expr.NamedEntries P entries
  | [] => trivial
  | (key, e) :: entries =>
    ⟨h key, Expr.named_of_forall h e, Expr.namedEntries_of_forall h entries⟩

end

variable (P) (E : Expr → Prop)

/-! ## Patterns -/

/-- All names of a node satisfy `P`, and so does its map of properties with `E`. -/
structure NodePattern.Holds (n : NodePattern) : Prop where
  name : ∀ x ∈ n.name, P x
  labels : ∀ l ∈ n.labels, P l
  properties : ∀ entries ∈ n.properties, E (.map entries)

@[inherit_doc NodePattern.Holds]
structure RelationshipPattern.Holds (r : RelationshipPattern) : Prop where
  name : ∀ x ∈ r.name, P x
  types : ∀ t ∈ r.types, P t
  properties : ∀ entries ∈ r.properties, E (.map entries)

structure Hop.Holds (h : Hop) : Prop where
  relationship : h.relationship.Holds P E
  node : h.node.Holds P E

structure Pattern.Holds (p : Pattern) : Prop where
  first : p.first.Holds P E
  hops : ∀ h ∈ p.hops, h.Holds P E

/-! ## Clauses -/

structure ReturnItem.Holds (i : ReturnItem) : Prop where
  expr : E i.expr
  asName : ∀ x ∈ i.asName, P x

structure Matching.Holds (m : Matching) : Prop where
  patterns : ∀ p ∈ m.patterns, p.Holds P E
  condition : ∀ e ∈ m.condition, E e

structure Projection.Holds (p : Projection) : Prop where
  items : ∀ i ∈ p.items, i.Holds P E
  orderBy : ∀ k ∈ p.orderBy, E k.expr
  skip : ∀ e ∈ p.skip, E e
  limit : ∀ e ∈ p.limit, E e

structure WithProjection.Holds (w : WithProjection) : Prop where
  projection : w.toProjection.Holds P E
  condition : ∀ e ∈ w.condition, E e

structure Assignment.Holds (a : Assignment) : Prop where
  name : P a.name
  key : P a.key
  value : E a.value

def Action.Holds : Action → Prop
  | .set items => ∀ a ∈ items, a.Holds P E
  | .create p => p.Holds P E

structure Loop.Holds (l : Loop) : Prop where
  name : P l.name
  source : E l.source
  actions : ∀ a ∈ l.actions, a.Holds P E

/-- All names of a clause outside of its expressions satisfy `P`, and all its expressions `E`. -/
def Clause.Holds : Clause → Prop
  | .matching m => m.Holds P E
  | .passing w => w.Holds P E
  | .returning p => p.Holds P E
  | .looping l => l.Holds P E

/-! ## Two predicates at once -/

section Both

variable {P} {E} {P₁ P₂ : String → Prop} {E₁ E₂ : Expr → Prop} (hP : ∀ x, P₁ x → P₂ x → P x)
  (hE : ∀ e, E₁ e → E₂ e → E e)

include hP hE

theorem NodePattern.Holds.both {n : NodePattern} (h₁ : n.Holds P₁ E₁) (h₂ : n.Holds P₂ E₂) :
    n.Holds P E where
  name x hx := hP x (h₁.name x hx) (h₂.name x hx)
  labels l hl := hP l (h₁.labels l hl) (h₂.labels l hl)
  properties es hes := hE _ (h₁.properties es hes) (h₂.properties es hes)

theorem RelationshipPattern.Holds.both {r : RelationshipPattern} (h₁ : r.Holds P₁ E₁)
    (h₂ : r.Holds P₂ E₂) : r.Holds P E where
  name x hx := hP x (h₁.name x hx) (h₂.name x hx)
  types t ht := hP t (h₁.types t ht) (h₂.types t ht)
  properties es hes := hE _ (h₁.properties es hes) (h₂.properties es hes)

theorem Pattern.Holds.both {p : Pattern} (h₁ : p.Holds P₁ E₁) (h₂ : p.Holds P₂ E₂) :
    p.Holds P E where
  first := h₁.first.both hP hE h₂.first
  hops h hh := ⟨(h₁.hops h hh).relationship.both hP hE (h₂.hops h hh).relationship,
    (h₁.hops h hh).node.both hP hE (h₂.hops h hh).node⟩

theorem Projection.Holds.both {p : Projection} (h₁ : p.Holds P₁ E₁) (h₂ : p.Holds P₂ E₂) :
    p.Holds P E where
  items i hi := ⟨hE _ (h₁.items i hi).expr (h₂.items i hi).expr,
    fun x hx => hP x ((h₁.items i hi).asName x hx) ((h₂.items i hi).asName x hx)⟩
  orderBy k hk := hE _ (h₁.orderBy k hk) (h₂.orderBy k hk)
  skip e he := hE e (h₁.skip e he) (h₂.skip e he)
  limit e he := hE e (h₁.limit e he) (h₂.limit e he)

theorem Action.Holds.both {a : Action} (h₁ : a.Holds P₁ E₁) (h₂ : a.Holds P₂ E₂) :
    a.Holds P E := by
  cases a with
  | set items =>
    exact fun a ha => ⟨hP _ (h₁ a ha).name (h₂ a ha).name, hP _ (h₁ a ha).key (h₂ a ha).key,
      hE _ (h₁ a ha).value (h₂ a ha).value⟩
  | create p => exact Pattern.Holds.both hP hE h₁ h₂

/-- What follows from two predicates holds of all names and expressions of a clause when both do. -/
theorem Clause.Holds.both {c : Clause} (h₁ : c.Holds P₁ E₁) (h₂ : c.Holds P₂ E₂) :
    c.Holds P E := by
  cases c with
  | matching m =>
    obtain ⟨hpatterns₁, hcondition₁⟩ := h₁
    obtain ⟨hpatterns₂, hcondition₂⟩ := h₂
    exact ⟨fun p hp => (hpatterns₁ p hp).both hP hE (hpatterns₂ p hp),
      fun e he => hE e (hcondition₁ e he) (hcondition₂ e he)⟩
  | passing w =>
    obtain ⟨hprojection₁, hcondition₁⟩ := h₁
    obtain ⟨hprojection₂, hcondition₂⟩ := h₂
    exact ⟨hprojection₁.both hP hE hprojection₂,
      fun e he => hE e (hcondition₁ e he) (hcondition₂ e he)⟩
  | returning p => exact Projection.Holds.both hP hE h₁ h₂
  | looping l =>
    obtain ⟨hname₁, hsource₁, hactions₁⟩ := h₁
    obtain ⟨hname₂, hsource₂, hactions₂⟩ := h₂
    exact ⟨hP _ hname₁ hname₂, hE _ hsource₁ hsource₂,
      fun a ha => Action.Holds.both hP hE (hactions₁ a ha) (hactions₂ a ha)⟩

end Both

/-! ## The names of a clause -/

abbrev NodePattern.Named (n : NodePattern) : Prop := n.Holds P (Expr.Named P)

abbrev Hop.Named (h : Hop) : Prop := h.Holds P (Expr.Named P)

abbrev Pattern.Named (p : Pattern) : Prop := p.Holds P (Expr.Named P)

abbrev ReturnItem.Named (i : ReturnItem) : Prop := i.Holds P (Expr.Named P)

abbrev Matching.Named (m : Matching) : Prop := m.Holds P (Expr.Named P)

abbrev Projection.Named (p : Projection) : Prop := p.Holds P (Expr.Named P)

abbrev Loop.Named (l : Loop) : Prop := l.Holds P (Expr.Named P)

abbrev Clause.Named (c : Clause) : Prop := c.Holds P (Expr.Named P)

variable {P} in
theorem Projection.named_of_forall (h : ∀ x, P x) (p : Projection) : p.Named P where
  items i _ := ⟨Expr.named_of_forall h i.expr, fun x _ => h x⟩
  orderBy k _ := Expr.named_of_forall h k.expr
  skip e _ := Expr.named_of_forall h e
  limit e _ := Expr.named_of_forall h e

end GraphSql.Query
