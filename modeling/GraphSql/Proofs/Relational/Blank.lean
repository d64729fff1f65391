import GraphSql.Proofs.Query.Blank
import GraphSql.Proofs.Relational.Names

/-!
# Select statements with their texts left out

A relational expression with every text constant emptied (`Expr.blank`), and the same for select
statements.  A value is written as the same constant whatever its texts contain, up to these contents,
unless it is a text that a column of integers wants to read as a number
(`Literal.blank_ofValueFor`).
-/

namespace GraphSql

namespace Relational

mutual

/-- A constant with every text in it emptied. -/
def Literal.blank : Literal → Literal
  | .text _ => .text ""
  | .array ls => .array (Literal.blankAll ls)
  | .textArray es => .textArray (es.map (Option.map fun _ => ""))
  | l => l

@[inherit_doc Literal.blank]
def Literal.blankAll : List Literal → List Literal
  | [] => []
  | l :: ls => Literal.blank l :: Literal.blankAll ls

end

mutual

/-- An expression with every text constant in it emptied. -/
def Expr.blank : Expr → Expr
  | .literal l => .literal l.blank
  | .row es => .row (Expr.blankAll es)
  | .array es => .array (Expr.blankAll es)
  | .not e => .not (Expr.blank e)
  | .negate e => .negate (Expr.blank e)
  | .binary op l r => .binary op (Expr.blank l) (Expr.blank r)
  | .nullTest negated e => .nullTest negated (Expr.blank e)
  | .compare op l r => .compare op (Expr.blank l) (Expr.blank r)
  | .inList e es => .inList (Expr.blank e) (Expr.blankAll es)
  | .equalsAny e a => .equalsAny (Expr.blank e) (Expr.blank a)
  | .like affix e part => .like affix (Expr.blank e) (Expr.blank part)
  | .call f distinct es => .call f distinct (Expr.blankAll es)
  | .ifElse c a b => .ifElse (Expr.blank c) (Expr.blank a) (Expr.blank b)
  | e => e

@[inherit_doc Expr.blank]
def Expr.blankAll : List Expr → List Expr
  | [] => []
  | e :: es => Expr.blank e :: Expr.blankAll es

end

def SelectItem.blank (i : SelectItem) : SelectItem := { i with expr := i.expr.blank }

def OrderItem.blank (i : OrderItem) : OrderItem := { i with expr := i.expr.blank }

/-- A select statement with its texts emptied; joins are on columns, and stay as they are. -/
def Select.blank (s : Select) : Select :=
  { s with items := s.items.map SelectItem.blank, conditions := s.conditions.map Expr.blank
           groupBy := s.groupBy.map Expr.blank, orderBy := s.orderBy.map OrderItem.blank
           offset := s.offset.map Expr.blank, limit := s.limit.map Expr.blank }

theorem Expr.blankAll_eq_map (es : List Expr) : Expr.blankAll es = es.map Expr.blank := by
  induction es with
  | nil => rfl
  | cons e es ih => rw [Expr.blankAll, ih, List.map_cons]

/-! ## Constants of values -/

namespace Literal

mutual

theorem blank_ofValue : ∀ v : Value, (ofValue v.blank).blank = (ofValue v).blank
  | .null => rfl
  | .boolean b => rfl
  | .integer n => rfl
  | .number x => rfl
  | .text s => rfl
  | .list vs => by
    rw [Value.blank, ofValue, ofValue, blank, blank, blank_ofValues vs]
  | .row vs => by
    rw [Value.blank, ofValue, ofValue, blank, blank, blank_ofValues vs]
  | .record es => rfl

theorem blank_ofValues : ∀ vs : List Value,
    blankAll (ofValues (Value.blankAll vs)) = blankAll (ofValues vs)
  | [] => rfl
  | v :: vs => by
    rw [Value.blankAll, ofValues, ofValues, blankAll, blankAll, blank_ofValue v, blank_ofValues vs]

end

/-- What is left of the elements of an array of texts. -/
theorem mapM_element?_blank (vs : List Value) :
    ((Value.blankAll vs).mapM element?).map (List.map (Option.map fun _ => "")) =
      (vs.mapM element?).map (List.map (Option.map fun _ => "")) := by
  induction vs with
  | nil => rfl
  | cons v vs ih =>
    have hfirst : (element? v.blank).map (Option.map fun _ => "") =
        (element? v).map (Option.map fun _ => "") := by
      cases v <;> rfl
    rw [Value.blankAll, List.mapM_cons, List.mapM_cons]
    cases hv : element? v with
    | none =>
      rw [hv, Option.map_none, Option.map_eq_none_iff] at hfirst
      rw [hfirst]
      rfl
    | some e =>
      rw [hv] at hfirst
      obtain ⟨e', he', hsame⟩ := Option.map_eq_some_iff.mp hfirst
      rw [he']
      cases hvs : vs.mapM element? with
      | none =>
        rw [hvs, Option.map_none, Option.map_eq_none_iff] at ih
        rw [ih]
        rfl
      | some es =>
        rw [hvs] at ih
        obtain ⟨es', hes', hall⟩ := Option.map_eq_some_iff.mp ih
        rw [hes']
        simp only [Option.bind_eq_bind, Option.bind_some, Option.pure_def, Option.map_some,
          List.map_cons, hsame, hall]

theorem blank_ofValueAs {type : ColumnType} {v : Value}
    (h : ∀ t, v = .text t → type.isNumeric = false) :
    (ofValueAs type v.blank).blank = (ofValueAs type v).blank := by
  have harray : ∀ {o o' : Option (List (Option String))},
      o.map (List.map (Option.map fun _ => "")) = o'.map (List.map (Option.map fun _ => "")) →
        ((o.map textArray).getD .null).blank = ((o'.map textArray).getD .null).blank := by
    intro o o' ho
    cases o <;> cases o' <;> simp_all [blank]
  cases v with
  | text t =>
    have hnumeric := h t rfl
    cases type with
    | int => cases hnumeric
    | bigint => cases hnumeric
    | text => rfl
    | textArray => rfl
  | list vs =>
    cases type with
    | textArray => exact harray (mapM_element?_blank vs)
    | _ => rfl
  | row vs =>
    cases type with
    | textArray => exact harray (mapM_element?_blank vs)
    | _ => rfl
  | _ => rfl

/-- **The contents of texts do not decide what a value is written as**, unless a column of integers
wants to read a text. -/
theorem blank_ofValueFor {type : Option ColumnType} {v : Value}
    (h : ∀ t, v = .text t → type.any ColumnType.isNumeric = false) :
    (ofValueFor type v.blank).blank = (ofValueFor type v).blank := by
  cases type with
  | none => exact blank_ofValue v
  | some type => exact blank_ofValueAs h

end Literal

/-! ## Names -/

section

variable {R : String → String → Prop} {W : String → Prop}

mutual

/-- Emptying texts leaves all names. -/
theorem Expr.all_blank : ∀ e : Expr, e.blank.All R W ↔ e.All R W
  | .column _ _ => Iff.rfl
  | .output _ => Iff.rfl
  | .star => Iff.rfl
  | .literal _ => Iff.rfl
  | .row es => Expr.allOf_blank es
  | .array es => Expr.allOf_blank es
  | .not e => Expr.all_blank e
  | .negate e => Expr.all_blank e
  | .binary _ l r => and_congr (Expr.all_blank l) (Expr.all_blank r)
  | .nullTest _ e => Expr.all_blank e
  | .compare _ l r => and_congr (Expr.all_blank l) (Expr.all_blank r)
  | .inList e es => and_congr (Expr.all_blank e) (Expr.allOf_blank es)
  | .equalsAny e a => and_congr (Expr.all_blank e) (Expr.all_blank a)
  | .like _ e part => and_congr (Expr.all_blank e) (Expr.all_blank part)
  | .call _ _ es => and_congr Iff.rfl (Expr.allOf_blank es)
  | .ifElse c a b => and_congr (Expr.all_blank c) (and_congr (Expr.all_blank a) (Expr.all_blank b))

theorem Expr.allOf_blank : ∀ es : List Expr, Expr.AllOf R W (Expr.blankAll es) ↔ Expr.AllOf R W es
  | [] => Iff.rfl
  | e :: es => and_congr (Expr.all_blank e) (Expr.allOf_blank es)

end

theorem OrderItem.all_blank (i : OrderItem) : i.blank.All R W ↔ i.All R W := by
  cases hi : i.expr with
  | output n => simp [OrderItem.All, OrderItem.blank, hi, Expr.blank]
  | _ =>
    have hexpr := Expr.all_blank (R := R) (W := W) i.expr
    rw [hi] at hexpr
    simp only [OrderItem.All, OrderItem.blank, hi, hexpr]
    simp [Expr.blank]

theorem Select.all_blank (s : Select) : s.blank.All R W ↔ s.All R W := by
  constructor
  · rintro ⟨hitems, hsources, hconditions, hgroup, horder, hoffset, hlimit⟩
    simp only [Select.blank, List.forall_mem_map, Option.mem_def, Option.map_eq_some_iff,
      forall_exists_index, and_imp, forall_apply_eq_imp_iff₂] at *
    exact ⟨fun i hi => ⟨(Expr.all_blank _).mp (hitems i hi).1, (hitems i hi).2⟩, hsources,
      fun e he => (Expr.all_blank e).mp (hconditions e he),
      fun e he => (Expr.all_blank e).mp (hgroup e he),
      fun i hi => i.all_blank.mp (horder i hi), fun e he => (Expr.all_blank e).mp (hoffset e he),
      fun e he => (Expr.all_blank e).mp (hlimit e he)⟩
  · rintro ⟨hitems, hsources, hconditions, hgroup, horder, hoffset, hlimit⟩
    constructor <;> simp only [Select.blank, List.forall_mem_map, Option.mem_def,
      Option.map_eq_some_iff, forall_exists_index, and_imp, forall_apply_eq_imp_iff₂]
    · exact fun i hi => ⟨(Expr.all_blank _).mpr (hitems i hi).1, (hitems i hi).2⟩
    · exact hsources
    · exact fun e he => (Expr.all_blank e).mpr (hconditions e he)
    · exact fun e he => (Expr.all_blank e).mpr (hgroup e he)
    · exact fun i hi => i.all_blank.mpr (horder i hi)
    · exact fun e he => (Expr.all_blank e).mpr (hoffset e he)
    · exact fun e he => (Expr.all_blank e).mpr (hlimit e he)

end

end Relational

end GraphSql
