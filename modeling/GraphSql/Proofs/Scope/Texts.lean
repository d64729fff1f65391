import GraphSql.Proofs.Relational.Blank
import GraphSql.Proofs.Scope.Mirror

/-!
# Compiling without looking at texts

An expression and the same expression with its texts emptied are compiled side by side.  Both fail
with the same error or both succeed, whatever the texts are, and what is known about a value is the
same on both sides.  The compiled expressions are equal but for their texts as long as no text stands
next to a column of integers, which would read it as a number (`Query.Expr.textsFit`).

The two runs may be in different scopes, if these resolve names in the same way (`Scope.SameNames`).
-/

namespace GraphSql

variable {e : Query.Expr}

/-! ## Texts next to columns of integers -/

namespace Query.Expr

/-- Whether an expression can stand next to a value of the given type without being a text that is
read as a number. -/
def fitsType (type : Option ColumnType) : Expr → Bool
  | .text _ => !type.any ColumnType.isNumeric
  | _ => true

section

variable (typeOf : Expr → Option ColumnType)

/-- Whether the two sides of a comparison can stand next to each other. -/
def sidesFit (op : Comparison) (l r : Expr) : Bool :=
  match op, r with
  | .isIn, .list es => es.all (fitsType (typeOf l))
  | .isIn, _ => true
  | _, r => fitsType (typeOf r) l && fitsType (typeOf l) r

mutual

/-- Whether no text of an expression stands next to a column of integers, when the types of the
columns are given. -/
def textsFit : Expr → Bool
  | .list es => textsFitAll es
  | .not e => textsFit e
  | .negate e => textsFit e
  | .binary _ l r => textsFit l && textsFit r
  | .compare op l r => sidesFit typeOf op l r && textsFit l && textsFit r
  | .nullTest _ e => textsFit e
  | .call _ _ args => textsFitAll args
  | _ => true

@[inherit_doc textsFit]
def textsFitAll : List Expr → Bool
  | [] => true
  | e :: es => textsFit e && textsFitAll es

end

theorem textsFitAll_eq_all (es : List Expr) : textsFitAll typeOf es = es.all (textsFit typeOf) := by
  induction es with
  | nil => rfl
  | cons e es ih => rw [textsFitAll, ih, List.all_cons]

end

mutual

/-- Calls of aggregates stay. -/
theorem aggregates_blank : ∀ e : Expr, e.blank.aggregates = e.aggregates
  | .call f distinct args => by
    rw [blank, aggregates, aggregates, anyAggregates_blank args]
  | .property e key => aggregates_blank e
  | .binary op l r => by rw [blank, aggregates, aggregates, aggregates_blank l, aggregates_blank r]
  | .compare op l r => by
    rw [blank, aggregates, aggregates, aggregates_blank l, aggregates_blank r]
  | .nullTest negated e => aggregates_blank e
  | .not e => aggregates_blank e
  | .negate e => aggregates_blank e
  | .list es => rfl
  | .map entries => rfl
  | .var name => rfl
  | .null => rfl
  | .boolean b => rfl
  | .integer n => rfl
  | .number x => rfl
  | .text s => rfl
  | .callStar f => rfl

theorem anyAggregates_blank : ∀ es : List Expr, anyAggregates (blankAll es) = anyAggregates es
  | [] => rfl
  | e :: es => by
    rw [blankAll, anyAggregates, anyAggregates, aggregates_blank e, anyAggregates_blank es]

end

end Query.Expr

namespace Scope

open Query.Expr (fitsType sidesFit textsFit textsFitAll)
open Relational (Expr Literal)

/-- What is known about the type of an operand. -/
def operandType (s : Scope) : Query.Expr → Option ColumnType
  | .var name => (s.lookupName name).toOption.bind Resolved.type
  | .property (.var name) key => (s.lookupProperty name key).toOption.bind Resolved.type
  | _ => none

/-- The two scopes resolve names in the same way. -/
structure SameNames (s t : Scope) : Prop where
  name : ∀ x, t.lookupName x = s.lookupName x
  property : ∀ x key, t.lookupProperty x key = s.lookupProperty x key
  columns : ∀ x scope, t.variableColumns x scope = s.variableColumns x scope

variable {s t : Scope}

/-! ## Expressions -/

/-- The operand `e` was resolved to `a`, and with its texts emptied to `b`. -/
structure Likened (s : Scope) (e : Query.Expr) (a b : Resolved) : Prop where
  type : a.type = s.operandType e
  type_eq : b.type = a.type
  origin_eq : b.origin = a.origin
  expr : textsFit s.operandType e = true → a.expr.blank = b.expr.blank

theorem SameNames.operand (h : s.SameNames t) {x y : Except Error Expr}
    (hxy : Except.Agree (fun a b => textsFit s.operandType e = true → a.blank = b.blank) x y) :
    Except.Agree (s.Likened e) (s.operand e x) (t.operand e.blank y) := by
  have hplain : s.operandType e = none → Except.Agree (s.Likened e) (x.map fun expr => { expr })
      (y.map fun expr => { expr }) := fun hnone =>
    hxy.map fun a b hab => ⟨hnone.symm, rfl, rfl, hab⟩
  have hfound : ∀ {o : Except Error Resolved}, s.operandType e = o.toOption.bind Resolved.type →
      Except.Agree (s.Likened e) o o := by
    intro o ho
    cases o with
    | error err => exact .error err
    | ok r => exact .ok ⟨ho.symm, rfl, rfl, fun _ => rfl⟩
  cases e with
  | var x =>
    rw [Query.Expr.blank_var, Scope.operand, Scope.operand, h.name]
    exact hfound rfl
  | property e key =>
    cases e with
    | var x =>
      rw [Query.Expr.blank, Query.Expr.blank_var, Scope.operand, Scope.operand, h.property]
      exact hfound rfl
    | _ => exact hplain rfl
  | _ => exact hplain rfl

/-- A literal next to a value of some type. -/
theorem agree_typed {type : Option ColumnType} {P : Prop} {x y : Except Error Expr}
    (hxy : Except.Agree (fun a b => P → a.blank = b.blank) x y) :
    Except.Agree (fun a b => fitsType type e = true → P → a.blank = b.blank) (typed e type x)
      (typed e.blank type y) := by
  unfold typed
  rw [e.value?_blank]
  cases hv : e.value? with
  | none => exact hxy.mono fun a b hab _ => hab
  | some v =>
    refine .ok fun hfits _ => ?_
    have htype : ∀ text, v = .text text → type.any ColumnType.isNumeric = false := by
      rintro text rfl
      obtain rfl := Query.Expr.eq_text_of_value? hv
      simpa [fitsType] using hfits
    rw [Expr.blank, Expr.blank, Literal.blank_ofValueFor htype]

theorem blank_comparison (op : Query.Comparison) {l l' r r' : Expr}
    (hl : l.blank = l'.blank) (hr : r.blank = r'.blank) :
    (comparison op l r).blank = (comparison op l' r').blank := by
  cases op <;> simp only [comparison, Expr.blank, hl, hr]

theorem isList_of_blank {es : List Query.Expr} (h : e.blank = .list es) : ∃ es, e = .list es := by
  cases e with
  | list es => exact ⟨es, rfl⟩
  | _ => cases h

/-- The two runs on a list whose elements stand next to something of the given type. -/
def ListsAgree (s t : Scope) (type : Option ColumnType) (es : List Query.Expr) : Prop :=
  Except.Agree (fun as bs => es.all (fitsType type) = true → textsFitAll s.operandType es = true →
      Expr.blankAll as = Expr.blankAll bs)
    (s.compileTyped type es) (t.compileTyped type (Query.Expr.blankAll es))

/-- A comparison whose sides are known to go together. -/
theorem agree_compare (op : Query.Comparison) {l r : Query.Expr}
    (hl : Except.Agree (s.Likened l) (s.operand l (s.compile l))
      (t.operand l.blank (t.compile l.blank)))
    (hr : Except.Agree (s.Likened r) (s.operand r (s.compile r))
      (t.operand r.blank (t.compile r.blank)))
    (hlist : ∀ es type, r = .list es → s.ListsAgree t type es) :
    Except.Agree (fun a b => textsFit s.operandType (.compare op l r) = true → a.blank = b.blank)
      (s.compile (.compare op l r)) (t.compile (.compare op l.blank r.blank)) := by
  by_cases hop : op = .isIn
  · subst hop
    by_cases hes : ∃ es, r = .list es
    · obtain ⟨es, rfl⟩ := hes
      rw [Query.Expr.blank, Scope.compile, Scope.compile]
      refine hl.bind fun a b hab => ?_
      rw [hab.type_eq]
      refine (hlist es a.type rfl).bind fun as bs habs => .ok fun hfit => ?_
      simp only [textsFit, sidesFit, Bool.and_eq_true] at hfit
      obtain ⟨⟨hsides, hleft⟩, hall⟩ := hfit
      rw [Expr.blank, Expr.blank, hab.expr hleft,
        habs (hab.type ▸ hsides) hall]
    · have hne : ∀ es, r = .list es → False := fun es hr => hes ⟨es, hr⟩
      have hne' : ∀ es, r.blank = .list es → False := fun es hr => hes (isList_of_blank hr)
      rw [Scope.compile, Scope.compile]
      · refine hl.bind fun a b hab => hr.bind fun c d hcd => .ok fun hfit => ?_
        simp only [textsFit, Bool.and_eq_true] at hfit
        obtain ⟨⟨-, hleft⟩, hright⟩ := hfit
        rw [Expr.blank, Expr.blank, hab.expr hleft, hcd.expr hright]
      · exact hne'
      · exact hne
  · rw [Scope.compile, Scope.compile]
    · refine hl.bind fun a b hab => hr.bind fun c d hcd => ?_
      -- literals take the type of the other side, which is the same in both runs
      rw [hab.type_eq, hcd.type_eq]
      refine (agree_typed (.ok hab.expr)).bind fun a' b' hab' => ?_
      refine (agree_typed (.ok hcd.expr)).bind fun c' d' hcd' => .ok fun hfit => ?_
      simp only [textsFit, Bool.and_eq_true] at hfit
      obtain ⟨⟨hsides, hleft⟩, hright⟩ := hfit
      rw [sidesFit, Bool.and_eq_true, ← hab.type, ← hcd.type] at hsides
      · exact blank_comparison op (hab' hsides.1 hleft) (hcd' hsides.2 hright)
      all_goals first | exact fun _ he => absurd he hop | exact hop
    all_goals first | exact fun _ he => absurd he hop | exact hop

mutual

/-- **What an expression compiles to does not depend on its texts**, apart from these texts. -/
theorem SameNames.compile (h : s.SameNames t) : ∀ e : Query.Expr,
    Except.Agree (fun a b => textsFit s.operandType e = true → a.blank = b.blank) (s.compile e)
      (t.compile e.blank)
  | .var x => by
    rw [Query.Expr.blank_var, Scope.compile, Scope.compile, h.name]
    exact .refl (fun _ _ => rfl) _
  | .property e key => by
    cases e with
    | var x =>
      rw [Query.Expr.blank, Query.Expr.blank_var, Scope.compile, Scope.compile, h.property]
      exact .refl (fun _ _ => rfl) _
    | _ => exact .error _
  | .null => .ok fun _ => rfl
  | .boolean b => .ok fun _ => rfl
  | .integer n => .ok fun _ => rfl
  | .number x => .ok fun _ => rfl
  | .text x => .ok fun _ => rfl
  | .list es => by
    rw [Query.Expr.blank, Scope.compile, Scope.compile]
    refine (SameNames.compileAll h es).bind fun as bs hab => .ok fun hfit => ?_
    rw [Expr.blank, Expr.blank, hab hfit]
  | .map entries => .error _
  | .not e => by
    rw [Query.Expr.blank, Scope.compile, Scope.compile]
    refine (SameNames.compile h e).bind fun a b hab => .ok fun hfit => ?_
    rw [Expr.blank, Expr.blank, hab hfit]
  | .negate e => by
    rw [Query.Expr.blank, Scope.compile, Scope.compile]
    refine (SameNames.compile h e).bind fun a b hab => .ok fun hfit => ?_
    rw [Expr.blank, Expr.blank, hab hfit]
  | .binary op l r => by
    rw [Query.Expr.blank, Scope.compile, Scope.compile]
    refine (SameNames.compile h l).bind fun a b hab => ?_
    refine (SameNames.compile h r).bind fun c d hcd => .ok fun hfit => ?_
    rw [textsFit, Bool.and_eq_true] at hfit
    rw [Expr.blank, Expr.blank, hab hfit.1, hcd hfit.2]
  | .nullTest negated e => by
    have hoperand := h.operand (SameNames.compile h e)
    rw [Query.Expr.blank, Scope.compile, Scope.compile]
    refine hoperand.bind fun a b hab => .ok fun hfit => ?_
    rw [Expr.blank, Expr.blank, hab.expr hfit]
  | .compare op l r => by
    have hlist : ∀ es type, r = .list es → s.ListsAgree t type es := by
      cases r with
      | list es =>
        rintro _ type ⟨⟩
        exact SameNames.compileTyped h type es
      | _ => exact fun _ _ hr => nomatch hr
    exact agree_compare op (h.operand (SameNames.compile h l)) (h.operand (SameNames.compile h r)) hlist
  | .call g distinct args => by
    rw [Query.Expr.blank, Scope.compile, Scope.compile]
    refine (SameNames.compileAll h args).bind fun as bs hab => .ok fun hfit => ?_
    rw [Expr.blank, Expr.blank, hab hfit]
  | .callStar g => .ok fun _ => rfl

theorem SameNames.compileAll (h : s.SameNames t) : ∀ es : List Query.Expr,
    Except.Agree (fun as bs => textsFitAll s.operandType es = true →
        Expr.blankAll as = Expr.blankAll bs)
      (s.compileAll es) (t.compileAll (Query.Expr.blankAll es))
  | [] => .ok fun _ => rfl
  | e :: es => by
    rw [Query.Expr.blankAll, Scope.compileAll, Scope.compileAll]
    refine (SameNames.compile h e).bind fun a b hab => ?_
    refine (SameNames.compileAll h es).bind fun as bs habs => .ok fun hfit => ?_
    rw [textsFitAll, Bool.and_eq_true] at hfit
    rw [Expr.blankAll, Expr.blankAll, hab hfit.1, habs hfit.2]

theorem SameNames.compileTyped (h : s.SameNames t) (type : Option ColumnType) :
    ∀ es : List Query.Expr, s.ListsAgree t type es
  | [] => .ok fun _ _ => rfl
  | e :: es => by
    rw [ListsAgree, Query.Expr.blankAll, Scope.compileTyped, Scope.compileTyped]
    refine (agree_typed (SameNames.compile h e)).bind fun a b hab => ?_
    refine (SameNames.compileTyped h type es).bind fun as bs habs => .ok fun hsides hfit => ?_
    rw [List.all_cons, Bool.and_eq_true] at hsides
    rw [textsFitAll, Bool.and_eq_true] at hfit
    rw [Expr.blankAll, Expr.blankAll, hab hsides.1 hfit.1,
      habs hsides.2 hfit.2]

end

section

variable {P : Prop}

theorem SameNames.compileList (h : s.SameNames t) {es : List Query.Expr}
    (hfit : P → ∀ e ∈ es, textsFit s.operandType e = true) :
    Except.Agree (fun as bs => P → as.map Expr.blank = bs.map Expr.blank)
      (s.compileAll es) (t.compileAll (es.map Query.Expr.blank)) := by
  rw [← Query.Expr.blankAll_eq_map]
  refine (h.compileAll es).mono fun as bs hab hP => ?_
  rw [← Expr.blankAll_eq_map, ← Expr.blankAll_eq_map]
  refine hab ?_
  rw [Query.Expr.textsFitAll_eq_all, List.all_eq_true]
  exact hfit hP

theorem SameNames.compileOption (h : s.SameNames t) {o : Option Query.Expr}
    (hfit : P → ∀ e ∈ o, textsFit s.operandType e = true) :
    Except.Agree (fun a b => P → a.map Expr.blank = b.map Expr.blank)
      (o.mapM s.compile) ((o.map Query.Expr.blank).mapM t.compile) := by
  cases o with
  | none => exact .ok fun _ => rfl
  | some e =>
    refine (h.compile e).bind fun a b hab => .ok fun hP => ?_
    rw [Option.map_some, Option.map_some, hab (hfit hP e rfl)]

end

end Scope

/-! ## Output columns -/

theorem map_eq_of_forall₂ {α β γ : Type} {R : α → β → Prop} {f : α → γ} {g : β → γ} {as : List α}
    {bs : List β} (h : List.Forall₂ R as bs) (hfg : ∀ a b, R a b → f a = g b) :
    as.map f = bs.map g := by
  rw [← List.forall₂_eq_eq_eq, List.forall₂_map_left_iff, List.forall₂_map_right_iff]
  exact h.imp hfg

/-- An output column but for its expression. -/
def ResultColumn.outline (c : ResultColumn) : ResultColumn := { c with expr := .star }

/-- Two output columns with the same outline; under the condition `P` their expressions are equal but
for their texts. -/
structure ResultColumn.Similar (P : Prop) (c d : ResultColumn) : Prop where
  outline : c.outline = d.outline
  expr : P → c.expr.blank = d.expr.blank

section

variable {P : Prop}

theorem ResultColumn.Similar.refl (c : ResultColumn) : c.Similar P c := ⟨rfl, fun _ => rfl⟩

theorem ResultColumn.Similar.name_eq {c d : ResultColumn} (h : c.Similar P d) : c.name = d.name :=
  (congrArg ResultColumn.name h.outline :)

theorem ResultColumn.Similar.withName {c d : ResultColumn} (h : c.Similar P d) (name : String) :
    ({ c with name } : ResultColumn).Similar P { d with name } :=
  ⟨congrArg (fun e : ResultColumn => { e with name }) h.outline, h.expr⟩

end

namespace Scope

open Query.Expr (textsFit textsFitAll)

variable {s t : Scope} {P : Prop} {cs ds : List ResultColumn}

theorem similar_freshColumns (taken : List String) (h : List.Forall₂ (ResultColumn.Similar P) cs ds) :
    List.Forall₂ (ResultColumn.Similar P) (freshColumns taken cs) (freshColumns taken ds) := by
  induction h generalizing taken with
  | nil => exact .nil
  | cons hcd _ ih =>
    rw [freshColumns, freshColumns, hcd.name_eq]
    exact .cons (hcd.withName _) (ih _)

theorem SameNames.plainColumn (h : s.SameNames t) (hfit : P → textsFit s.operandType e = true)
    (name : String) (asName : Option String) :
    Except.Agree (ResultColumn.Similar P) (s.plainColumn e name asName)
      (t.plainColumn e.blank name asName) :=
  (h.compile e).bind fun _ _ hab => .ok ⟨rfl, fun hP => hab (hfit hP)⟩

/-- What is known about the value of an aggregate does not depend on texts. -/
theorem SameNames.aggregateColumn (h : s.SameNames t) (a : Aggregate) {call : Query.Expr}
    (hfit : P → textsFit s.operandType call = true) (args : List Query.Expr)
    (asName : Option String) :
    Except.Agree (ResultColumn.Similar P) (s.aggregateColumn a call args asName)
      (t.aggregateColumn a call.blank (Query.Expr.blankAll args) asName) := by
  have hargument : Except.Agree (fun r r' : Option Resolved =>
      aggregateType a r = aggregateType a r' ∧ aggregateOrigin a r = aggregateOrigin a r')
      (args.head?.mapM s.resolve) ((Query.Expr.blankAll args).head?.mapM t.resolve) := by
    cases args with
    | nil => exact .ok ⟨rfl, rfl⟩
    | cons e es =>
      refine (h.operand (h.compile e)).bind fun r r' hr => .ok ?_
      cases a <;> simp [aggregateType, aggregateOrigin, hr.type_eq, hr.origin_eq]
  refine hargument.bind fun r r' hr => (h.compile call).bind fun x y hxy => ?_
  rw [hr.1, hr.2]
  exact .ok ⟨rfl, fun hP => hxy (hfit hP)⟩

theorem SameNames.callColumn (h : s.SameNames t) (function : String) {call : Query.Expr}
    (hfit : P → textsFit s.operandType call = true) (args : List Query.Expr)
    (asName : Option String) :
    Except.Agree (ResultColumn.Similar P) (s.callColumn function call args asName)
      (t.callColumn function call.blank (Query.Expr.blankAll args) asName) := by
  unfold Scope.callColumn
  split
  · exact h.aggregateColumn _ hfit args asName
  · exact h.plainColumn hfit _ asName

theorem SameNames.itemColumns (h : s.SameNames t) (index : Nat) {item : Query.ReturnItem}
    (hfit : P → textsFit s.operandType item.expr = true) :
    Except.Agree (List.Forall₂ (ResultColumn.Similar P)) (s.itemColumns index item)
      (t.itemColumns index item.blank) := by
  have hone : ∀ {x y : Except Error ResultColumn}, Except.Agree (ResultColumn.Similar P) x y →
      Except.Agree (List.Forall₂ (ResultColumn.Similar P)) (do return [← x]) (do return [← y]) :=
    fun hxy => hxy.bind fun _ _ hab => .ok (.cons hab .nil)
  have hsame : ∀ x : Except Error (List ResultColumn),
      Except.Agree (List.Forall₂ (ResultColumn.Similar P)) x x :=
    .refl fun cs => List.forall₂_same.mpr fun c _ => .refl c
  rcases item with ⟨e, asName⟩
  cases e with
  | var x =>
    change Except.Agree _ (s.variableColumns x _) (t.variableColumns x _)
    rw [h.columns]
    exact hsame _
  | property e key =>
    cases e with
    | var x =>
      change Except.Agree _ (s.lookupProperty x key >>= _) (t.lookupProperty x key >>= _)
      rw [h.property]
      exact hsame _
    | _ => exact hone (h.plainColumn hfit _ _)
  | call f distinct args => exact hone (h.callColumn f hfit args _)
  | callStar f => exact hone (h.callColumn f hfit [] _)
  | _ => exact hone (h.plainColumn hfit _ _)

/-- The output columns of two runs side by side. -/
structure Projected.Similar (P : Prop) (p q : Projected) : Prop where
  columns : List.Forall₂ (ResultColumn.Similar P) p.columns q.columns
  keys : P → p.keys.map Relational.Expr.blank = q.keys.map Relational.Expr.blank

theorem Projected.Similar.items {p q : Projected} (h : p.Similar P q) (hP : P) :
    (p.columns.map ResultColumn.item).map Relational.SelectItem.blank =
      (q.columns.map ResultColumn.item).map Relational.SelectItem.blank := by
  rw [List.map_map, List.map_map]
  refine map_eq_of_forall₂ h.columns fun c d hcd => ?_
  simp [ResultColumn.item, Relational.SelectItem.blank, hcd.name_eq, hcd.expr hP]

theorem SameNames.addItem (h : s.SameNames t) {p q : Projected} (hpq : p.Similar P q)
    {item : Query.ReturnItem × Nat} (hfit : P → textsFit s.operandType item.1.expr = true) :
    Except.Agree (Projected.Similar P) (s.addItem p item) (t.addItem q (item.1.blank, item.2)) := by
  refine (h.itemColumns item.2 hfit).bind fun cs ds hcs => .ok ?_
  have hfresh := similar_freshColumns (p.columns.map ResultColumn.name) hcs
  rw [← map_eq_of_forall₂ hpq.columns fun _ _ => ResultColumn.Similar.name_eq]
  refine ⟨List.rel_append hpq.columns hfresh, fun hP => ?_⟩
  have haggregates : item.1.blank.expr.aggregates = item.1.expr.aggregates :=
    item.1.expr.aggregates_blank
  dsimp only
  rw [haggregates]
  split
  · exact hpq.keys hP
  · rw [List.map_append, List.map_append, hpq.keys hP, List.map_map, List.map_map]
    exact congrArg _ (map_eq_of_forall₂ hfresh fun _ _ hcd => hcd.expr hP)

/-- **The output columns do not depend on texts**, apart from the texts in their expressions. -/
theorem SameNames.project (h : s.SameNames t) {items : List Query.ReturnItem}
    (hfit : P → ∀ i ∈ items, textsFit s.operandType i.expr = true) :
    Except.Agree (Projected.Similar P) (s.project items)
      (t.project (items.map Query.ReturnItem.blank)) := by
  rw [Scope.project, Scope.project, List.zipIdx_map, List.foldlM_map]
  refine .foldlM (fun item hitem p q hpq => ?_) ⟨.nil, fun _ => rfl⟩
  exact h.addItem hpq fun hP => hfit hP item.1 (List.fst_mem_of_mem_zipIdx hitem)

/-! ## Sort keys -/

theorem name_of_wholeOutput? (h : List.Forall₂ (ResultColumn.Similar P) cs ds) (e : Query.Expr) :
    (wholeOutput? cs e).map ResultColumn.name = (wholeOutput? ds e.blank).map ResultColumn.name := by
  cases e with
  | var x =>
    rw [Query.Expr.blank_var, wholeOutput?, wholeOutput?, Relation.whole?, Relation.whole?]
    induction h with
    | nil => rfl
    | @cons c d _ _ hcd _ ih =>
      have hscope : c.scopeName = d.scopeName := (congrArg ResultColumn.scopeName hcd.outline :)
      have hkey : c.key = d.key := (congrArg ResultColumn.key hcd.outline :)
      rw [List.find?_cons, List.find?_cons, hscope, hkey]
      split
      · rw [Option.map_some, Option.map_some, hcd.name_eq]
      · exact ih
  | _ => rfl

theorem SameNames.sortKey (h : s.SameNames t) (hcs : List.Forall₂ (ResultColumn.Similar P) cs ds)
    {key : Query.SortKey} (hfit : P → textsFit s.operandType key.expr = true) :
    Except.Agree (fun i j => P → i.blank = j.blank) (s.sortKey cs key) (t.sortKey ds key.blank) := by
  have hname := name_of_wholeOutput? hcs key.expr
  unfold Scope.sortKey Query.SortKey.blank
  dsimp only
  cases hc : wholeOutput? cs key.expr with
  | some c =>
    rw [hc, Option.map_some, eq_comm, Option.map_eq_some_iff] at hname
    obtain ⟨d, hd, hname⟩ := hname
    rw [hd]
    dsimp only
    rw [hname]
    exact .ok fun _ => rfl
  | none =>
    rw [hc, Option.map_none, eq_comm, Option.map_eq_none_iff] at hname
    rw [hname]
    refine (h.compile key.expr).bind fun a b hab => .ok fun hP => ?_
    rw [Relational.OrderItem.blank, Relational.OrderItem.blank, hab (hfit hP)]

theorem SameNames.sortKeys (h : s.SameNames t) (hcs : List.Forall₂ (ResultColumn.Similar P) cs ds)
    {keys : List Query.SortKey} (hfit : P → ∀ k ∈ keys, textsFit s.operandType k.expr = true) :
    Except.Agree (fun is js =>
        P → is.map Relational.OrderItem.blank = js.map Relational.OrderItem.blank)
      (keys.mapM (s.sortKey cs)) ((keys.map Query.SortKey.blank).mapM (t.sortKey ds)) := by
  rw [List.mapM_map]
  have hall : Except.Agree (List.Forall₂ fun i j => P → i.blank = j.blank)
      (keys.mapM (s.sortKey cs)) (keys.mapM (t.sortKey ds ∘ Query.SortKey.blank)) :=
    .mapM fun key hkey => h.sortKey hcs fun hP => hfit hP key hkey
  exact hall.mono fun is js hij hP => map_eq_of_forall₂ hij fun i j h => h hP

end Scope

end GraphSql
