import GraphSql.Proofs.Query.Named
import GraphSql.Proofs.Relational.Signs

/-!
# Minus signs in a query

When a query is compiled, a minus sign before an expression stays where it is, and the expression
may become a text that starts with another one: a negated expression, or a comparison that starts
with one.  `Clause.signsApart` says that this happens nowhere in a clause.

A literal next to a column is written as the value that it denotes, so minus signs in it do not
count; but a text that spells a negative integer can become one.
-/

namespace GraphSql

/-- Whether a constant made from a value can start with a minus sign. -/
def Value.opensSigned : Value → Bool
  | .integer n => decide (n < 0)
  | .number x => x.signed
  | .text s => (Numeral.read? s).any fun n => decide (n < 0)
  | _ => false

namespace Query

namespace Expr

/-- Whether the text that an expression becomes can start with a minus sign. -/
def opensSigned : Expr → Bool
  | .number x => x.signed
  | .negate _ => true
  | .nullTest _ e => opensSigned e
  | .compare .isIn l _ => opensSigned l
  | .compare _ l _ =>
    match l.value? with
    | some v => v.opensSigned
    | none => opensSigned l
  | _ => false

mutual

/-- No minus sign stands before an expression whose text can start with one. -/
def signsApart : Expr → Bool
  | .list es => signsApartAll es
  | .map entries => signsApartEntries entries
  | .not e => signsApart e
  | .negate e => !e.opensSigned && signsApart e
  | .binary _ l r => signsApart l && signsApart r
  | .compare .isIn l (.list es) => signsApart l && signsApartTyped es
  | .compare .isIn l r => signsApart l && signsApart r
  | .compare _ l r => (l.value?.isSome || signsApart l) && (r.value?.isSome || signsApart r)
  | .nullTest _ e => signsApart e
  | .call _ _ args => signsApartAll args
  | _ => true

@[inherit_doc signsApart]
def signsApartAll : List Expr → Bool
  | [] => true
  | e :: es => signsApart e && signsApartAll es

/-- The elements of a list next to a column: literals among them are written as their values. -/
def signsApartTyped : List Expr → Bool
  | [] => true
  | e :: es => (e.value?.isSome || signsApart e) && signsApartTyped es

/-- The values of properties: literals among them are written as their values. -/
def signsApartEntries : List (String × Expr) → Bool
  | [] => true
  | (_, e) :: entries => (e.value?.isSome || signsApart e) && signsApartEntries entries

end

/-- The minus signs of an expression stand apart. -/
def SignsApart (e : Expr) : Prop := e.signsApart = true

section

variable {op : Comparison} {e l r : Expr}

theorem opensSigned_compare (hop : op ≠ .isIn) : (compare op l r).opensSigned =
    match l.value? with
    | some v => v.opensSigned
    | none => l.opensSigned := by
  rw [opensSigned]
  exact hop

theorem signsApart_negate : (negate e).SignsApart ↔ e.opensSigned = false ∧ e.SignsApart := by
  simp [SignsApart, signsApart]

theorem signsApart_binary {op : BinaryOp} :
    (binary op l r).SignsApart ↔ l.SignsApart ∧ r.SignsApart := by
  simp [SignsApart, signsApart]

theorem signsApart_isIn_list {es : List Expr} : (compare .isIn l (list es)).SignsApart ↔
    l.SignsApart ∧ signsApartTyped es = true := by
  simp [SignsApart, signsApart]

theorem signsApart_isIn (hr : ∀ es, r ≠ list es) :
    (compare .isIn l r).SignsApart ↔ l.SignsApart ∧ r.SignsApart := by
  rw [SignsApart, signsApart, Bool.and_eq_true]
  · rfl
  · exact fun es he => hr es he

theorem signsApart_compare (hop : op ≠ .isIn) : (compare op l r).SignsApart ↔
    (l.value?.isSome = true ∨ l.SignsApart) ∧ (r.value?.isSome = true ∨ r.SignsApart) := by
  rw [SignsApart, signsApart, Bool.and_eq_true, Bool.or_eq_true, Bool.or_eq_true]
  · rfl
  · exact fun _ he => absurd he hop
  · exact hop

end

theorem signsApartAll_iff {es : List Expr} :
    signsApartAll es = true ↔ ∀ e ∈ es, e.SignsApart := by
  induction es with
  | nil => simp [signsApartAll]
  | cons e es ih => simp [signsApartAll, ih, SignsApart]

theorem signsApart_of_mem_entries {entries : List (String × Expr)}
    (h : signsApartEntries entries = true) {p : String × Expr} (hp : p ∈ entries) :
    p.2.value?.isSome = true ∨ p.2.SignsApart := by
  induction entries with
  | nil => cases hp
  | cons q entries ih =>
    rw [signsApartEntries, Bool.and_eq_true, Bool.or_eq_true] at h
    rcases List.mem_cons.mp hp with rfl | hp
    · exact h.1
    · exact ih h.2 hp

end Expr

/-! ## Clauses -/

def NodePattern.signsApart (n : NodePattern) : Bool := n.properties.all Expr.signsApartEntries

def RelationshipPattern.signsApart (r : RelationshipPattern) : Bool :=
  r.properties.all Expr.signsApartEntries

def Pattern.signsApart (p : Pattern) : Bool :=
  p.first.signsApart && p.hops.all fun h => h.relationship.signsApart && h.node.signsApart

def Matching.signsApart (m : Matching) : Bool :=
  m.patterns.all Pattern.signsApart && m.condition.all Expr.signsApart

def Projection.signsApart (p : Projection) : Bool :=
  p.items.all (fun i => i.expr.signsApart) && p.orderBy.all (fun k => k.expr.signsApart) &&
    p.skip.all Expr.signsApart && p.limit.all Expr.signsApart

/-- The minus signs of a clause stand apart.  The values in a loop are all written as such. -/
def Clause.signsApart : Clause → Bool
  | .matching m => m.signsApart
  | .passing w => w.toProjection.signsApart && w.condition.all Expr.signsApart
  | .returning p => p.signsApart
  | .looping _ => true

section

variable {P : String → Prop} (hP : ∀ x, P x)

include hP

theorem Pattern.holds_of_signsApart {p : Pattern} (h : p.signsApart = true) :
    p.Holds P Expr.SignsApart := by
  rw [Pattern.signsApart, Bool.and_eq_true, List.all_eq_true] at h
  have hnode : ∀ n : NodePattern, n.signsApart = true → n.Holds P Expr.SignsApart := fun n hn =>
    ⟨fun x _ => hP x, fun x _ => hP x, (Option.all_eq_true _ _).mp hn⟩
  refine ⟨hnode p.first h.1, fun hop hhop => ?_⟩
  have hboth := h.2 hop hhop
  rw [Bool.and_eq_true] at hboth
  exact ⟨⟨fun x _ => hP x, fun x _ => hP x, (Option.all_eq_true _ _).mp hboth.1⟩,
    hnode hop.node hboth.2⟩

theorem Projection.holds_of_signsApart {p : Projection} (h : p.signsApart = true) :
    p.Holds P Expr.SignsApart := by
  simp only [Projection.signsApart, Bool.and_eq_true, List.all_eq_true] at h
  obtain ⟨⟨⟨hitems, horder⟩, hskip⟩, hlimit⟩ := h
  exact ⟨fun i hi => ⟨hitems i hi, fun x _ => hP x⟩, horder,
    (Option.all_eq_true _ _).mp hskip, (Option.all_eq_true _ _).mp hlimit⟩

theorem Clause.holds_of_signsApart {c : Clause} (h : c.signsApart = true)
    (hc : c.isLooping = false) : c.Holds P Expr.SignsApart := by
  cases c with
  | matching m =>
    rw [Clause.signsApart, Matching.signsApart, Bool.and_eq_true, List.all_eq_true] at h
    exact ⟨fun p hp => p.holds_of_signsApart hP (h.1 p hp), (Option.all_eq_true _ _).mp h.2⟩
  | passing w =>
    rw [Clause.signsApart, Bool.and_eq_true] at h
    exact ⟨w.toProjection.holds_of_signsApart hP h.1, (Option.all_eq_true _ _).mp h.2⟩
  | returning p => exact p.holds_of_signsApart hP h
  | looping l => cases hc

end

end Query

end GraphSql
