import GraphSql.Proofs.Scope.Aliases

/-!
# Queries with their texts left out

Two queries that differ only in the contents of their texts are equal once every text is emptied
(`Expr.blank`, and the like for patterns and clauses).  Emptying texts does not touch names, so places
keep their aliases, and it does not touch which expressions are literals (`Expr.value?_blank`).
-/

namespace GraphSql

mutual

/-- A value with every text in it emptied. -/
def Value.blank : Value → Value
  | .text _ => .text ""
  | .list vs => .list (Value.blankAll vs)
  | .row vs => .row (Value.blankAll vs)
  | v => v

@[inherit_doc Value.blank]
def Value.blankAll : List Value → List Value
  | [] => []
  | v :: vs => Value.blank v :: Value.blankAll vs

end

namespace Query

mutual

/-- An expression with every text in it emptied. -/
def Expr.blank : Expr → Expr
  | .text _ => .text ""
  | .property e key => .property (Expr.blank e) key
  | .list es => .list (Expr.blankAll es)
  | .map entries => .map (Expr.blankEntries entries)
  | .not e => .not (Expr.blank e)
  | .negate e => .negate (Expr.blank e)
  | .binary op l r => .binary op (Expr.blank l) (Expr.blank r)
  | .compare op l r => .compare op (Expr.blank l) (Expr.blank r)
  | .nullTest negated e => .nullTest negated (Expr.blank e)
  | .call f distinct args => .call f distinct (Expr.blankAll args)
  | e => e

@[inherit_doc Expr.blank]
def Expr.blankAll : List Expr → List Expr
  | [] => []
  | e :: es => Expr.blank e :: Expr.blankAll es

@[inherit_doc Expr.blank]
def Expr.blankEntries : List (String × Expr) → List (String × Expr)
  | [] => []
  | (key, e) :: entries => (key, Expr.blank e) :: Expr.blankEntries entries

end

@[simp] theorem Expr.blank_var (name : String) : (Expr.var name).blank = .var name := rfl

theorem Expr.blankAll_eq_map (es : List Expr) : Expr.blankAll es = es.map Expr.blank := by
  induction es with
  | nil => rfl
  | cons e es ih => rw [Expr.blankAll, ih, List.map_cons]

theorem Expr.blankEntries_eq_map (entries : List (String × Expr)) :
    Expr.blankEntries entries = entries.map fun entry => (entry.1, entry.2.blank) := by
  induction entries with
  | nil => rfl
  | cons entry entries ih => rw [Expr.blankEntries, ih, List.map_cons]

/-- Numbers have no texts. -/
theorem Expr.negated?_blank (v : Value) :
    Expr.negated? v.blank = (Expr.negated? v).map Value.blank := by
  cases v <;> rfl

mutual

/-- Emptying texts turns literals into literals. -/
theorem Expr.value?_blank : ∀ e : Expr, e.blank.value? = e.value?.map Value.blank
  | .null => rfl
  | .boolean b => rfl
  | .integer n => rfl
  | .number x => rfl
  | .text s => rfl
  | .list es => by
    rw [Expr.blank, Expr.value?, Expr.value?, Expr.values?_blank es, Option.map_map, Option.map_map]
    rfl
  | .negate e => by
    rw [Expr.blank, Expr.value?, Expr.value?, Expr.value?_blank e]
    cases e.value? with
    | none => rfl
    | some v => exact Expr.negated?_blank v
  | .var name => rfl
  | .property e key => rfl
  | .map entries => rfl
  | .not e => rfl
  | .binary op l r => rfl
  | .compare op l r => rfl
  | .nullTest negated e => rfl
  | .call f distinct args => rfl
  | .callStar f => rfl

theorem Expr.values?_blank :
    ∀ es : List Expr, Expr.values? (Expr.blankAll es) = (Expr.values? es).map Value.blankAll
  | [] => rfl
  | e :: es => by
    rw [Expr.blankAll, Expr.values?, Expr.values?, Expr.value?_blank e, Expr.values?_blank es]
    cases e.value? with
    | none => rfl
    | some v =>
      cases Expr.values? es with
      | none => rfl
      | some vs => rfl

end

/-- A literal that denotes a text is that text. -/
theorem Expr.eq_text_of_value? {e : Expr} {t : String} (h : e.value? = some (.text t)) :
    e = .text t := by
  cases e with
  | text s =>
    cases h
    rfl
  | list es =>
    rw [Expr.value?] at h
    obtain ⟨vs, -, hv⟩ := Option.map_eq_some_iff.mp h
    cases hv
  | negate e =>
    rw [Expr.value?] at h
    obtain ⟨v, -, hv⟩ := Option.bind_eq_some_iff.mp h
    cases v <;> cases hv
  | _ => cases h

/-! ## Clauses -/

def NodePattern.blank (n : NodePattern) : NodePattern :=
  { n with properties := n.properties.map Expr.blankEntries }

def RelationshipPattern.blank (r : RelationshipPattern) : RelationshipPattern :=
  { r with properties := r.properties.map Expr.blankEntries }

def Hop.blank (h : Hop) : Hop := ⟨h.relationship.blank, h.node.blank⟩

def Pattern.blank (p : Pattern) : Pattern := ⟨p.first.blank, p.hops.map Hop.blank⟩

def Matching.blank (m : Matching) : Matching :=
  ⟨m.patterns.map Pattern.blank, m.condition.map Expr.blank⟩

def ReturnItem.blank (i : ReturnItem) : ReturnItem := { i with expr := i.expr.blank }

def SortKey.blank (k : SortKey) : SortKey := { k with expr := k.expr.blank }

def Projection.blank (p : Projection) : Projection :=
  { p with items := p.items.map ReturnItem.blank, orderBy := p.orderBy.map SortKey.blank
           skip := p.skip.map Expr.blank, limit := p.limit.map Expr.blank }

theorem patterns_blank (ms : List Matching) :
    (ms.map Matching.blank).flatMap Matching.patterns =
      (ms.flatMap Matching.patterns).map Pattern.blank := by
  rw [List.flatMap_map, List.map_flatMap]
  rfl

theorem conditions_blank (ms : List Matching) :
    (ms.map Matching.blank).filterMap Matching.condition =
      (ms.filterMap Matching.condition).map Expr.blank := by
  rw [List.filterMap_map, List.map_filterMap]
  rfl

/-! ## Places -/

def AliasedHop.blank (h : AliasedHop) : AliasedHop :=
  { h with relationship := h.relationship.blank, node := h.node.blank }

def AliasedPattern.blank (q : AliasedPattern) : AliasedPattern :=
  { q with first := q.first.blank, hops := q.hops.map AliasedHop.blank }

theorem aliasedHops_blank : ∀ (k : Nat) (hs : List Hop),
    aliasedHops k (hs.map Hop.blank) =
      ((aliasedHops k hs).1.map AliasedHop.blank, (aliasedHops k hs).2)
  | _, [] => rfl
  | k, h :: hs => by
    have hfirst : h.blank.aliased k = ((h.aliased k).1.blank, (h.aliased k).2) := rfl
    rw [List.map_cons, aliasedHops, aliasedHops, hfirst]
    dsimp only
    rw [aliasedHops_blank]
    rfl

/-- Places keep their aliases. -/
theorem aliasedPatterns_blank : ∀ (k : Nat) (ps : List Pattern),
    aliasedPatterns k (ps.map Pattern.blank) =
      ((aliasedPatterns k ps).1.map AliasedPattern.blank, (aliasedPatterns k ps).2)
  | _, [] => rfl
  | k, p :: ps => by
    have hfirst : p.blank.aliased k = ((p.aliased k).1.blank, (p.aliased k).2) := by
      unfold Pattern.aliased Pattern.blank
      dsimp only
      rw [aliasedHops_blank]
      rfl
    rw [List.map_cons, aliasedPatterns, aliasedPatterns, hfirst]
    dsimp only
    rw [aliasedPatterns_blank]
    rfl

end Query

end GraphSql
