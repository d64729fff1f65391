import GraphSql.Proofs.Relational.Grouping
import GraphSql.Proofs.Scope.Aliases
import GraphSql.Proofs.Scope.Columns

/-!
# Compiled expressions keep their grouping

For expressions made of properties, operators, negations, minus signs, comparisons and null tests the
text of the compiled expression decides the expression, up to the letter case of keys, as long as
no comparison and no null test stands to the right of a comparison or behind a minus sign
(`Scope.keysAgree_of_render_eq`).  Without this condition it does not
(`Scope.render_eq_of_regrouped`).

There are three steps.  The text decides the relational expression (`Relational.Expr.eq_of_render_eq`);
compiling keeps the form of an expression (`Scope.Compiles`); and a column belongs to one property
only (`Scope.Legible.lookupProperty_injective`), since no two variables have the same name, and no two
columns of a temporary table.
-/

namespace GraphSql

variable {b : Bool}

namespace Query

/-- The relational comparison of the same spelling. -/
def Comparison.comparator? : Comparison → Option Relational.Comparator
  | .eq => some .eq
  | .ne => some .ne
  | .lt => some .lt
  | .gt => some .gt
  | .le => some .le
  | .ge => some .ge
  | _ => none

/-- Where a comparison looks for a text. -/
def Comparison.affix? : Comparison → Option Relational.Affix
  | .contains => some .anywhere
  | .startsWith => some .start
  | .endsWith => some .finish
  | _ => none

/-- Expressions over properties in which no comparison and no null test stands to the right of a
comparison or behind a minus sign; `Grouped true e` says that `e` can stand there.  The array of a
membership test is bracketed and can be anything. -/
inductive Expr.Grouped : Bool → Expr → Prop
  | property {b : Bool} {x key : String} : Wordy x → Wordy key → Grouped b (.property (.var x) key)
  | not {b : Bool} {e : Expr} : Grouped false e → Grouped b (.not e)
  | negate {b : Bool} {e : Expr} : Grouped true e → Grouped b (.negate e)
  | binary {b : Bool} (op : BinaryOp) {l r : Expr} :
    Grouped false l → Grouped false r → Grouped b (.binary op l r)
  | nullTest (negated : Bool) {e : Expr} : Grouped false e → Grouped false (.nullTest negated e)
  | compare (op : Comparison) {l r : Expr} :
    Grouped false l → Grouped (op != .isIn) r → Grouped false (.compare op l r)

/-- The same expression up to the letter case of keys. -/
inductive Expr.KeysAgree : Expr → Expr → Prop
  | property (x : String) {key key' : String} :
    Text.sameName key key' = true → KeysAgree (.property (.var x) key) (.property (.var x) key')
  | not {e e' : Expr} : KeysAgree e e' → KeysAgree (.not e) (.not e')
  | negate {e e' : Expr} : KeysAgree e e' → KeysAgree (.negate e) (.negate e')
  | binary (op : BinaryOp) {l r l' r' : Expr} :
    KeysAgree l l' → KeysAgree r r' → KeysAgree (.binary op l r) (.binary op l' r')
  | nullTest (negated : Bool) {e e' : Expr} :
    KeysAgree e e' → KeysAgree (.nullTest negated e) (.nullTest negated e')
  | compare (op : Comparison) {l r l' r' : Expr} :
    KeysAgree l l' → KeysAgree r r' → KeysAgree (.compare op l r) (.compare op l' r')

/-- None of these expressions is a literal. -/
theorem Expr.Grouped.value?_eq_none {e : Expr} (h : e.Grouped b) : e.value? = none := by
  induction h with
  | negate _ ih => rw [Expr.value?, ih]; rfl
  | _ => rfl

theorem Expr.Grouped.ne_list {e : Expr} (h : e.Grouped b) (es : List Expr) : e ≠ .list es := by
  rintro rfl
  cases h

theorem Comparison.comparator?_injective {op op' : Comparison} {c : Relational.Comparator}
    (h : op.comparator? = some c) (h' : op'.comparator? = some c) : op = op' := by
  cases op <;> cases h <;> cases op' <;> first | rfl | cases h'

theorem Comparison.affix?_injective {op op' : Comparison} {f : Relational.Affix}
    (h : op.affix? = some f) (h' : op'.affix? = some f) : op = op' := by
  cases op <;> cases h <;> cases op' <;> first | rfl | cases h'

end Query

/-- A relation that holds the result of some plan. -/
def Relation.Staged (r : Relation) : Prop :=
  ∃ schema relations ms p plan, Plan.ofClauses schema relations ms p = .ok plan ∧
    r.columns = plan.projection

namespace Scope

open Query (Comparison Pattern)
open Relational (Expr)

variable {schema : Schema} {relations : List (String × Relation)} {s : Scope} {e : Query.Expr}
  {r : Resolved} {x key : String}

/-! ## Columns belong to one property -/

theorem wordy_of_mem_nodes {ps : List Pattern} (h : addPatterns schema { relations } ps = .ok s)
    (hps : ∀ p ∈ ps, ∀ x ∈ p.nodeNames, Wordy x) : ∀ n ∈ s.nodes, Wordy n.name := by
  intro n hn
  have hplace := ((binds_of_addPatterns h).nodes n.name).mp (List.mem_map_of_mem hn)
  obtain ⟨a, ha, hname⟩ := List.mem_map.mp (hplace.resolve_left List.not_mem_nil)
  cases hvariable : a.1 with
  | none =>
    obtain ⟨j, hj⟩ := Query.nodePlaces_aliasedPatterns 0 ps a ha hvariable
    rw [← hname, hj]
    exact wordy_append (by decide) (wordy_natural j)
  | some x =>
    have halias := (aliased_aliasedPatterns 0 ps).eq_variable
      ((Query.AliasedPattern.nodePlaces_sublist_places _).subset ha) hvariable
    obtain ⟨p, hp, hx⟩ := Query.mem_nodeNames_of_nodePlaces ha hvariable
    rw [← hname, halias]
    exact hps p hp x hx

/-- What makes a column tell which property it is. -/
structure Legible (s : Scope) : Prop where
  introduces : s.Introduces
  nodes : ∀ n ∈ s.nodes, Wordy n.name
  derived : ∀ n ∈ s.nodes, ∀ r, n.source = .derived r → DistinctColumns r.columns

theorem legible_of_addPatterns {ps : List Pattern} (hrelations : ∀ p ∈ relations, p.2.Staged)
    (hps : ∀ p ∈ ps, ∀ x ∈ p.nodeNames, Wordy x) (h : addPatterns schema { relations } ps = .ok s) :
    s.Legible where
  introduces := introduces_of_addPatterns h
  nodes := wordy_of_mem_nodes h hps
  derived n hn r hr := by
    obtain ⟨labels, hsource⟩ := (ranged_of_addPatterns h).nodes n hn
    rw [hr] at hsource
    obtain ⟨_, _, _, _, plan, hplan, hcolumns⟩ :=
      hrelations (n.name, r) (mem_of_nodeSource_derived hsource)
    rw [hcolumns]
    exact Plan.distinct_projection hplan

/-- A property is a column of its variable, or a column of a derived relation that has its key. -/
theorem lookupProperty_cases (h : s.lookupProperty x key = .ok r) :
    (∃ c, (s.stored? x).isSome = true ∧ Text.sameName c key = true ∧ r.expr = .column x c) ∨
      ∃ n ∈ s.nodes, ∃ rel, n.source = .derived rel ∧ ∃ c ∈ rel.columns, c.scopeName = some x ∧
        (∃ k, c.key = some k ∧ Text.sameName k key = true) ∧ r.expr = .column n.name c.name := by
  rcases lookupProperty_eq_ok h with ⟨table, columns, c, hstored, hc, rfl⟩ |
    ⟨⟨y, rel⟩, hp, c, hc, rfl⟩
  · unfold Column.find? at hc
    exact .inl ⟨c.name, by rw [hstored]; rfl, by simpa using List.find?_some hc, rfl⟩
  · obtain ⟨n, hn, rfl, hsource⟩ := exists_node_of_mem_derived hp
    have hkey := List.find?_some hc
    rw [Bool.and_eq_true, beq_iff_eq] at hkey
    refine .inr ⟨n, hn, rel, hsource, c, mem_of_property? hc, hkey.1, ?_, rfl⟩
    cases hk : c.key with
    | none =>
      rw [hk] at hkey
      cases hkey.2
    | some k =>
      rw [hk] at hkey
      exact ⟨k, rfl, (Bool.and_eq_true_iff.mp hkey.2).2⟩

/-- A property of words is a column of names without delimiters. -/
theorem Legible.solid_lookupProperty (hs : s.Legible) (hx : Wordy x) (hkey : Wordy key)
    (h : s.lookupProperty x key = .ok r) : ∃ y c, r.expr = .column y c ∧ Solid y ∧ Solid c := by
  rcases lookupProperty_cases h with ⟨c, -, hc, he⟩ |
    ⟨n, hn, rel, hrel, c, hc, hscope, ⟨k, hk, hsame⟩, he⟩
  · exact ⟨x, c, he, hx.solid, solid_of_sameName hkey hc⟩
  · refine ⟨n.name, c.name, he, (hs.nodes n hn).solid, ?_⟩
    have hkeySolid : Solid k := solid_of_sameName hkey hsame
    obtain ⟨name, taken, hname, hfresh⟩ := (hs.derived n hn rel hrel).keys c hc
    rw [hfresh]
    refine solid_freshName ?_ taken
    rcases hname k hk with rfl | ⟨y, hy, rfl⟩
    · exact hkeySolid
    · obtain rfl : x = y := Option.some.inj (hscope.symm.trans hy)
      exact solid_append (solid_append hx.solid (Wordy.solid (by decide))) hkeySolid

/-- A variable over a derived relation ranges over no table of the schema. -/
theorem Legible.stored?_eq_none (hs : s.Legible) {n : BoundNode} (hn : n ∈ s.nodes) {rel : Relation}
    (hrel : n.source = .derived rel) : s.stored? n.name = none := by
  rw [stored?, hs.introduces.node?_of_mem hn]
  dsimp only
  rw [hrel]

/-- **A column belongs to one property**, letter case apart. -/
theorem Legible.lookupProperty_injective (hs : s.Legible) {x' key' : String} {r' : Resolved}
    (h : s.lookupProperty x key = .ok r) (h' : s.lookupProperty x' key' = .ok r')
    (he : r.expr = r'.expr) : x = x' ∧ Text.sameName key key' = true := by
  have hsame : ∀ {k : String}, Text.sameName k key = true → Text.sameName k key' = true →
      Text.sameName key key' = true := by
    intro k hk hk'
    exact beq_iff_eq.mpr ((beq_iff_eq.mp hk).symm.trans (beq_iff_eq.mp hk'))
  rcases lookupProperty_cases h with ⟨c, hstored, hc, hcolumn⟩ |
    ⟨n, hn, rel, hrel, c, hc, hscope, ⟨k, hk, hkey⟩, hcolumn⟩ <;>
  rcases lookupProperty_cases h' with ⟨d, hstored', hd, hcolumn'⟩ |
    ⟨m, hm, rel', hrel', d, hd, hscope', ⟨k', hk', hkey'⟩, hcolumn'⟩ <;>
  rw [hcolumn, hcolumn'] at he <;> obtain ⟨hname, hcd⟩ := Expr.column.inj he
  · exact ⟨hname, hsame hc (hcd ▸ hd)⟩
  · rw [hname, hs.stored?_eq_none hm hrel'] at hstored
    cases hstored
  · rw [← hname, hs.stored?_eq_none hn hrel] at hstored'
    cases hstored'
  · -- one name is one node, over one relation, in which one name is one column
    have hnode : some n = some m := by
      rw [← hs.introduces.node?_of_mem hn, ← hs.introduces.node?_of_mem hm, hname]
    cases hnode
    cases hrel.symm.trans hrel'
    obtain rfl := (hs.derived n hn rel hrel).eq_of_name hc hd hcd
    cases hscope.symm.trans hscope'
    cases hk.symm.trans hk'
    exact ⟨rfl, hsame hkey hkey'⟩

/-! ## Compiling keeps the form of an expression -/

/-- The relational form of expressions without literals, form by form. -/
inductive Compiles (s : Scope) : Query.Expr → Expr → Prop
  | property {x key y c : String} {r : Resolved} : s.lookupProperty x key = .ok r →
    r.expr = .column y c → Compiles s (.property (.var x) key) (.column y c)
  | not {e : Query.Expr} {a : Expr} : Compiles s e a → Compiles s (.not e) (.not a)
  | negate {e : Query.Expr} {a : Expr} :
    Compiles s e a → Compiles s (.negate e) (.negate a)
  | binary (op : Query.BinaryOp) {l r : Query.Expr} {a b : Expr} :
    Compiles s l a → Compiles s r b → Compiles s (.binary op l r) (.binary op a b)
  | nullTest (negated : Bool) {e : Query.Expr} {a : Expr} :
    Compiles s e a → Compiles s (.nullTest negated e) (.nullTest negated a)
  | compare {op : Comparison} {c : Relational.Comparator} {l r : Query.Expr}
    {a b : Expr} : op.comparator? = some c → Compiles s l a → Compiles s r b →
      Compiles s (.compare op l r) (.compare c a b)
  | isIn {l r : Query.Expr} {a b : Expr} :
    Compiles s l a → Compiles s r b → Compiles s (.compare .isIn l r) (.equalsAny a b)
  | like {op : Comparison} {f : Relational.Affix} {l r : Query.Expr} {a b : Expr} :
    op.affix? = some f → Compiles s l a → Compiles s r b →
      Compiles s (.compare op l r) (.like f a b)

theorem compiles_comparison {l r : Query.Expr} {a b : Expr} (op : Comparison)
    (hl : Compiles s l a) (hr : Compiles s r b) :
    Compiles s (.compare op l r) (comparison op a b) := by
  cases op with
  | isIn => exact .isIn hl hr
  | contains => exact .like rfl hl hr
  | startsWith => exact .like rfl hl hr
  | endsWith => exact .like rfl hl hr
  | _ => exact .compare rfl hl hr

/-- What is no literal does not take the type of what it stands next to. -/
theorem typed_of_value?_eq_none (he : e.value? = none) (type : Option ColumnType)
    (x : Except Error Expr) : typed e type x = x := by
  rw [typed, he]

theorem compiles_of_compile (he : e.Grouped b) :
    ∀ {a : Expr}, s.compile e = .ok a → Compiles s e a := by
  induction he with
  | property _ _ =>
    intro a h
    rw [compile] at h
    obtain ⟨r, hr, rfl⟩ := Except.map_eq_ok.mp h
    obtain ⟨y, c, hcolumn⟩ : ∃ y c, r.expr = .column y c := by
      rcases lookupProperty_cases hr with ⟨c, -, -, he⟩ | ⟨n, -, rel, -, c, -, -, -, he⟩
      · exact ⟨_, _, he⟩
      · exact ⟨_, _, he⟩
    rw [hcolumn]
    exact .property hr hcolumn
  | not _ ih =>
    intro a h
    rw [compile] at h
    obtain ⟨x, hx, h⟩ := Except.bind_eq_ok.mp h
    cases h
    exact .not (ih hx)
  | negate _ ih =>
    intro a h
    rw [compile] at h
    obtain ⟨x, hx, h⟩ := Except.bind_eq_ok.mp h
    cases h
    exact .negate (ih hx)
  | binary op _ _ ihl ihr =>
    intro a h
    rw [compile] at h
    obtain ⟨x, hx, h⟩ := Except.bind_eq_ok.mp h
    obtain ⟨y, hy, h⟩ := Except.bind_eq_ok.mp h
    cases h
    exact .binary op (ihl hx) (ihr hy)
  | nullTest negated _ ih =>
    intro a h
    rw [compile] at h
    obtain ⟨x, hx, h⟩ := Except.bind_eq_ok.mp h
    cases h
    exact .nullTest negated (ih (compile_of_operand hx))
  | compare op hl hr ihl ihr =>
    intro a h
    obtain ⟨x, hx, ⟨es, ys, -, he, -, -⟩ | ⟨y, hy, ⟨rfl, -, rfl⟩ | ⟨-, x', y', hx', hy', rfl⟩⟩⟩ :=
      compile_compare_eq_ok h
    · -- a list that is written out is none of these expressions
      exact absurd he (hr.ne_list es)
    · exact .isIn (ihl (compile_of_operand hx)) (ihr (compile_of_operand hy))
    · rw [typed_of_value?_eq_none hl.value?_eq_none] at hx'
      rw [typed_of_value?_eq_none hr.value?_eq_none] at hy'
      cases hx'
      cases hy'
      exact compiles_comparison op (ihl (compile_of_operand hx)) (ihr (compile_of_operand hy))

theorem Compiles.grouped (hs : s.Legible) (he : e.Grouped b) :
    ∀ {a : Expr}, Compiles s e a → a.Grouped b := by
  induction he with
  | property hx hkey =>
    rintro a (⟨hr, hcolumn⟩)
    obtain ⟨y, c, he, hy, hc⟩ := hs.solid_lookupProperty hx hkey hr
    obtain ⟨rfl, rfl⟩ := Expr.column.inj (hcolumn.symm.trans he)
    exact .column hy hc
  | not _ ih =>
    rintro a ⟨⟩
    exact .not (ih ‹_›)
  | negate _ ih =>
    rintro a ⟨⟩
    exact .negate (ih ‹_›)
  | binary op _ _ ihl ihr =>
    rintro a (_ | _ | _ | ⟨_, hl, hr⟩)
    exact .binary op (ihl hl) (ihr hr)
  | nullTest negated _ ih =>
    rintro a ⟨⟩
    exact .nullTest negated (ih ‹_›)
  | compare op _ _ ihl ihr =>
    intro a h
    cases h with
    | @compare _ c _ _ _ _ hop hl hr =>
      have hoperand : (op != .isIn) = true := by
        cases op <;> first | rfl | cases hop
      rw [hoperand] at ihr
      exact .compare c (ihl hl) (ihr hr)
    | isIn hl hr => exact .equalsAny (ihl hl) (ihr hr)
    | @like _ f _ _ _ _ hop hl hr =>
      have hoperand : (op != .isIn) = true := by
        cases op <;> first | rfl | cases hop
      rw [hoperand] at ihr
      exact .like f (ihl hl) (ihr hr)

/-- Expressions with the same relational form are the same up to the letter case of keys. -/
theorem Compiles.keysAgree (hs : s.Legible) {e' : Query.Expr} {a : Expr} (h : Compiles s e a)
    (h' : Compiles s e' a) : e.KeysAgree e' := by
  induction h generalizing e' with
  | property hr hcolumn =>
    cases h' with
    | property hr' hcolumn' =>
      obtain ⟨rfl, hkey⟩ := hs.lookupProperty_injective hr hr' (hcolumn.trans hcolumn'.symm)
      exact .property _ hkey
  | not _ ih =>
    cases h' with
    | not h' => exact .not (ih h')
  | negate _ ih =>
    cases h' with
    | negate h' => exact .negate (ih h')
  | binary op _ _ ihl ihr =>
    cases h' with
    | binary _ hl hr => exact .binary op (ihl hl) (ihr hr)
  | nullTest negated _ ih =>
    cases h' with
    | nullTest _ h' => exact .nullTest negated (ih h')
  | @compare op _ _ _ _ _ hop _ _ ihl ihr =>
    cases h' with
    | compare hop' hl hr =>
      obtain rfl := Comparison.comparator?_injective hop hop'
      exact .compare op (ihl hl) (ihr hr)
  | isIn _ _ ihl ihr =>
    cases h' with
    | isIn hl hr => exact .compare .isIn (ihl hl) (ihr hr)
  | @like op _ _ _ _ _ hop _ _ ihl ihr =>
    cases h' with
    | like hop' hl hr =>
      obtain rfl := Comparison.affix?_injective hop hop'
      exact .compare op (ihl hl) (ihr hr)

/-! ## Texts decide expressions -/

/-- **The text of a grouped expression decides the expression**, up to the letter case of keys. -/
theorem keysAgree_of_render_eq {ps : List Pattern} (hrelations : ∀ p ∈ relations, p.2.Staged)
    (hps : ∀ p ∈ ps, ∀ x ∈ p.nodeNames, Wordy x) (hs : addPatterns schema { relations } ps = .ok s)
    {e e' : Query.Expr} (he : e.Grouped false) (he' : e'.Grouped false) {a a' : Expr}
    (ha : s.compile e = .ok a) (ha' : s.compile e' = .ok a') (htext : a.render = a'.render) :
    e.KeysAgree e' := by
  have hlegible := legible_of_addPatterns hrelations hps hs
  have hform := compiles_of_compile he ha
  have hform' := compiles_of_compile he' ha'
  have hsame : a = a' := Expr.eq_of_render_eq (hform.grouped hlegible he)
    (hform'.grouped hlegible he') htext
  exact hform.keysAgree hlegible (hsame ▸ hform')

/-- The pattern `(n)`. -/
def nodePattern : List Pattern := [{ first := { name := some "n" } }]

/-- The expression `-(n.j + n.k) = n.l IS NULL` for keys `j`, `k` and `l`. -/
def nullSum (j k l : String) : Query.Expr :=
  .nullTest false (.compare .eq
    (.negate (.binary .add (.property (.var "n") j) (.property (.var "n") k)))
    (.property (.var "n") l))

theorem grouped_nullSum {j k l : String} (hj : Wordy j) (hk : Wordy k) (hl : Wordy l) :
    (nullSum j k l).Grouped false :=
  have hn : Wordy "n" := by decide
  .nullTest false (.compare .eq (.negate (.binary .add (.property hn hj) (.property hn hk)))
    (.property hn hl))

/-- The texts of two expressions over `(n)`. -/
def textsOver (e e' : Query.Expr) : Except Error (String × String) := do
  let s ← addPatterns Plan.friendsSchema {} nodePattern
  let a ← s.compile e
  let a' ← s.compile e'
  return (a.render, a'.render)

theorem exists_of_textsOver {e' : Query.Expr} {text text' : String}
    (h : textsOver e e' = .ok (text, text')) :
    ∃ s a a', addPatterns Plan.friendsSchema {} nodePattern = .ok s ∧ s.compile e = .ok a ∧
      s.compile e' = .ok a' ∧ a.render = text ∧ a'.render = text' := by
  obtain ⟨s, hs, h⟩ := Except.bind_eq_ok.mp h
  obtain ⟨a, ha, h⟩ := Except.bind_eq_ok.mp h
  obtain ⟨a', ha', h⟩ := Except.bind_eq_ok.mp h
  cases h
  exact ⟨s, a, a', hs, ha, ha', rfl, rfl⟩

theorem keysAgree_of_render_eq_nullSum :
    textsOver (nullSum "ID" "id" "label") (nullSum "id" "Id" "Label") =
        .ok ("-(n.id + n.id) = n.label IS NULL", "-(n.id + n.id) = n.label IS NULL") ∧
      (nullSum "ID" "id" "label").KeysAgree (nullSum "id" "Id" "Label") := by
  have htexts : textsOver (nullSum "ID" "id" "label") (nullSum "id" "Id" "Label") =
      .ok ("-(n.id + n.id) = n.label IS NULL", "-(n.id + n.id) = n.label IS NULL") := by
    decide +kernel
  obtain ⟨s, a, a', hs, ha, ha', htext, htext'⟩ := exists_of_textsOver htexts
  have hrelations : ∀ p ∈ ([] : List (String × Relation)), p.2.Staged := by simp
  exact ⟨htexts, keysAgree_of_render_eq hrelations (by decide) hs
    (grouped_nullSum (by decide) (by decide) (by decide))
    (grouped_nullSum (by decide) (by decide) (by decide)) ha ha' (htext.trans htext'.symm)⟩

/-- **Comparisons of comparisons lose their grouping**: `(n.id = n.label) = n.id` and
`n.id = (n.label = n.id)` have the same text. -/
theorem render_eq_of_regrouped :
    textsOver
        (.compare .eq (.compare .eq (.property (.var "n") "id") (.property (.var "n") "label"))
          (.property (.var "n") "id"))
        (.compare .eq (.property (.var "n") "id")
          (.compare .eq (.property (.var "n") "label") (.property (.var "n") "id"))) =
        .ok ("n.id = n.label = n.id", "n.id = n.label = n.id") ∧
      ¬ Query.Expr.KeysAgree
        (.compare .eq (.compare .eq (.property (.var "n") "id") (.property (.var "n") "label"))
          (.property (.var "n") "id"))
        (.compare .eq (.property (.var "n") "id")
          (.compare .eq (.property (.var "n") "label") (.property (.var "n") "id"))) := by
  refine ⟨by decide +kernel, fun h => ?_⟩
  cases h with
  | compare _ hl _ => cases hl

end Scope

end GraphSql
