import GraphSql.Proofs.Relational.Names

/-!
# Constants next to columns

Where a column is compared with a constant, a property of the two can be asked for: `Expr.Against F`
states that `F` holds of every such pair in an expression, and `Select.Against F` that it does in all
parts of a select statement.
-/

namespace GraphSql.Relational

variable (F : String → String → Literal → Prop)

/-- If the first is a column and the second a constant, they satisfy `F`. -/
def Expr.Faces : Expr → Expr → Prop
  | .column x c, .literal l => F x c l
  | _, _ => True

mutual

/-- Every constant that a column is compared with satisfies `F` with that column, and so does every
element of a list that the column is looked for in. -/
def Expr.Against : Expr → Prop
  | .row es => Expr.AgainstAll es
  | .array es => Expr.AgainstAll es
  | .not e => Expr.Against e
  | .negate e => Expr.Against e
  | .binary _ l r => Expr.Against l ∧ Expr.Against r
  | .nullTest _ e => Expr.Against e
  | .compare _ l r => (Expr.Faces F l r ∧ Expr.Faces F r l) ∧ Expr.Against l ∧ Expr.Against r
  | .inList e es => (∀ x ∈ es, Expr.Faces F e x) ∧ Expr.Against e ∧ Expr.AgainstAll es
  | .equalsAny e a => Expr.Against e ∧ Expr.Against a
  | .like _ e part => (Expr.Faces F e part ∧ Expr.Faces F part e) ∧ Expr.Against e ∧ Expr.Against part
  | .call _ _ es => Expr.AgainstAll es
  | .ifElse c a b => Expr.Against c ∧ Expr.Against a ∧ Expr.Against b
  | _ => True

@[inherit_doc Expr.Against]
def Expr.AgainstAll : List Expr → Prop
  | [] => True
  | e :: es => Expr.Against e ∧ Expr.AgainstAll es

end

@[inherit_doc Expr.Against]
structure Select.Against (s : Select) : Prop where
  items : ∀ i ∈ s.items, i.expr.Against F
  sources : ∀ x ∈ s.sources, ∀ e ∈ x.join.conditions, e.Against F
  conditions : ∀ e ∈ s.conditions, e.Against F
  groupBy : ∀ e ∈ s.groupBy, e.Against F
  orderBy : ∀ i ∈ s.orderBy, i.expr.Against F
  offset : ∀ e ∈ s.offset, e.Against F
  limit : ∀ e ∈ s.limit, e.Against F

variable {F} {F' : String → String → Literal → Prop}

theorem Expr.againstAll_iff {es : List Expr} :
    Expr.AgainstAll F es ↔ ∀ e ∈ es, e.Against F := by
  induction es with
  | nil => simp [Expr.AgainstAll]
  | cons e es ih => simp [Expr.AgainstAll, ih]

theorem Expr.Faces.mono (hF : ∀ x c l, F x c l → F' x c l) {e x : Expr} (h : e.Faces F x) :
    e.Faces F' x := by
  unfold Expr.Faces at h ⊢
  split
  · exact hF _ _ _ h
  · trivial

mutual

theorem Expr.against_mono (hF : ∀ x c l, F x c l → F' x c l) : ∀ e : Expr, e.Against F → e.Against F'
  | .column _ _, _ => trivial
  | .output _, _ => trivial
  | .star, _ => trivial
  | .literal _, _ => trivial
  | .row es, h => Expr.againstAll_mono hF es h
  | .array es, h => Expr.againstAll_mono hF es h
  | .not e, h => Expr.against_mono hF e h
  | .negate e, h => Expr.against_mono hF e h
  | .binary _ l r, h => ⟨Expr.against_mono hF l h.1, Expr.against_mono hF r h.2⟩
  | .nullTest _ e, h => Expr.against_mono hF e h
  | .compare _ l r, h => ⟨⟨h.1.1.mono hF, h.1.2.mono hF⟩, Expr.against_mono hF l h.2.1,
      Expr.against_mono hF r h.2.2⟩
  | .inList e es, h => ⟨fun x hx => (h.1 x hx).mono hF, Expr.against_mono hF e h.2.1,
      Expr.againstAll_mono hF es h.2.2⟩
  | .equalsAny e a, h => ⟨Expr.against_mono hF e h.1, Expr.against_mono hF a h.2⟩
  | .like _ e part, h => ⟨⟨h.1.1.mono hF, h.1.2.mono hF⟩, Expr.against_mono hF e h.2.1,
      Expr.against_mono hF part h.2.2⟩
  | .call _ _ es, h => Expr.againstAll_mono hF es h
  | .ifElse c a b, h =>
    ⟨Expr.against_mono hF c h.1, Expr.against_mono hF a h.2.1, Expr.against_mono hF b h.2.2⟩

theorem Expr.againstAll_mono (hF : ∀ x c l, F x c l → F' x c l) :
    ∀ es : List Expr, Expr.AgainstAll F es → Expr.AgainstAll F' es
  | [], _ => trivial
  | e :: es, h => ⟨Expr.against_mono hF e h.1, Expr.againstAll_mono hF es h.2⟩

end

theorem Select.Against.mono (hF : ∀ x c l, F x c l → F' x c l) {s : Select} (h : s.Against F) :
    s.Against F' where
  items i hi := i.expr.against_mono hF (h.items i hi)
  sources x hx e he := e.against_mono hF (h.sources x hx e he)
  conditions e he := e.against_mono hF (h.conditions e he)
  groupBy e he := e.against_mono hF (h.groupBy e he)
  orderBy i hi := i.expr.against_mono hF (h.orderBy i hi)
  offset e he := e.against_mono hF (h.offset e he)
  limit e he := e.against_mono hF (h.limit e he)

end GraphSql.Relational
