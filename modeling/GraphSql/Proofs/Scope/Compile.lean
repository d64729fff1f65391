import GraphSql.Proofs.Query.Named
import GraphSql.Proofs.Relational.Names
import GraphSql.Proofs.Scope.Lookup
import GraphSql.Plan

/-!
# Compiled expressions

The ways in which compiling an expression can succeed are gone through once (`Scope.Carries`): a
relation between expressions that each of them carries over from the parts to the whole holds between
every expression and what it is compiled to (`Scope.Carries.compile`).

The first use is for references.  All column references of a compiled expression come from looking
names and properties up in the scope.  So what holds of the results of `lookupName` and
`lookupProperty` (`Scope.Resolves`) holds of every expression that the scope compiles, and of the
conditions and output columns made from it.
-/

namespace GraphSql

namespace Scope

open Relational (Expr Literal OrderItem)

/-- Every column that a scope can hand out satisfies `R`. -/
structure Resolves (s : Scope) (R : String → String → Prop) : Prop where
  stored {x table : String} {columns : List Column} :
    s.stored? x = some (table, columns) → ∀ c ∈ columns, R x c.name
  node {x table : String} {columns : List Column} {labels : List String} {n : BoundNode} :
    s.node? x = some n → n.source = .stored table columns labels → R x Schema.nodeId
  edge {x : String} {e : BoundEdge} : s.edge? x = some e →
    R x Schema.edgeSource ∧ R x Schema.edgeTarget ∧ R x Schema.edgeType
  derived : ∀ p ∈ s.derived, ∀ c ∈ p.2.columns, R p.1 c.name

section

variable {s : Scope} {R : String → String → Prop} {W P : String → Prop} {e : Query.Expr}

/-! ## Lookup -/

theorem resolved_all (hs : s.Resolves R) {p : String × Relation} (hp : p ∈ s.derived)
    {c : ResultColumn} (hc : c ∈ p.2.columns) : (c.resolved p.1).expr.All R W :=
  hs.derived p hp c hc

theorem lookupName_all (hs : s.Resolves R) {x : String} {r : Resolved}
    (h : s.lookupName x = .ok r) : r.expr.All R W := by
  rcases lookupName_eq_ok h with ⟨n, table, columns, labels, hn, hsource, rfl⟩ | ⟨e, he, rfl⟩ |
    ⟨p, hp, c, hc, rfl⟩
  · exact hs.node hn hsource
  · obtain ⟨h1, h2, h3⟩ := hs.edge he
    exact ⟨h1, h2, h3, trivial⟩
  · exact resolved_all hs hp (mem_of_key? hc)

theorem lookupProperty_all (hs : s.Resolves R) {x key : String} {r : Resolved}
    (h : s.lookupProperty x key = .ok r) : r.expr.All R W := by
  rcases lookupProperty_eq_ok h with ⟨table, columns, c, hstored, hc, rfl⟩ | ⟨p, hp, c, hc, rfl⟩
  · exact hs.stored hstored c (List.mem_of_find?_eq_some hc)
  · exact resolved_all hs hp (mem_of_property? hc)

/-! ## Expressions -/

/-- An operand is the compiled expression, with more known about it. -/
theorem compile_of_operand {x : Resolved} (h : s.operand e (s.compile e) = .ok x) :
    s.compile e = .ok x.expr := by
  rcases operand_eq_ok h with ⟨name, rfl, hx⟩ | ⟨name, key, rfl, hx⟩ | ⟨a, ha, rfl⟩
  · rw [compile, hx]
    rfl
  · rw [compile, hx]
    rfl
  · exact ha

theorem typed_all {type : Option ColumnType} {x : Except Error Expr} {a : Expr}
    (hx : ∀ a, x = .ok a → a.All R W) (h : typed e type x = .ok a) : a.All R W := by
  rcases typed_eq_ok h with ⟨v, -, rfl⟩ | ⟨-, h⟩
  · exact trivial
  · exact hx a h

theorem comparison_all {l r : Expr} (op : Query.Comparison) (hl : l.All R W)
    (hr : r.All R W) : (comparison op l r).All R W := by
  cases op <;> exact ⟨hl, hr⟩

theorem compile_property_eq_ok {key : String} {a : Expr} (h : s.compile (.property e key) = .ok a) :
    ∃ name r, e = .var name ∧ s.lookupProperty name key = .ok r ∧ a = r.expr := by
  cases e with
  | var name =>
    rw [compile] at h
    obtain ⟨r, hr, rfl⟩ := Except.map_eq_ok.mp h
    exact ⟨name, r, rfl, hr, rfl⟩
  | _ => cases h

/-- A comparison looks at its left side first; the right side of a membership test may be a list that
is written out. -/
theorem compile_compare_eq_ok {op : Query.Comparison} {l r : Query.Expr} {a : Expr}
    (h : s.compile (.compare op l r) = .ok a) :
    ∃ x, s.operand l (s.compile l) = .ok x ∧
      ((∃ es ys, op = .isIn ∧ r = .list es ∧ s.compileTyped x.type es = .ok ys ∧
          a = .inList x.expr ys) ∨
        ∃ y, s.operand r (s.compile r) = .ok y ∧
          ((op = .isIn ∧ (∀ es, r ≠ .list es) ∧ a = .equalsAny x.expr y.expr) ∨
            op ≠ .isIn ∧ ∃ x' y', typed l y.type (.ok x.expr) = .ok x' ∧
              typed r x.type (.ok y.expr) = .ok y' ∧ a = comparison op x' y')) := by
  rcases compile_compare_cases op l r with ⟨es, rfl, rfl, heq⟩ | ⟨rfl, hne, heq⟩ | ⟨hop, heq⟩
  · rw [heq] at h
    obtain ⟨x, hx, h⟩ := Except.bind_eq_ok.mp h
    obtain ⟨ys, hys, h⟩ := Except.bind_eq_ok.mp h
    cases h
    exact ⟨x, hx, .inl ⟨es, ys, rfl, rfl, hys, rfl⟩⟩
  · rw [heq] at h
    obtain ⟨x, hx, h⟩ := Except.bind_eq_ok.mp h
    obtain ⟨y, hy, h⟩ := Except.bind_eq_ok.mp h
    cases h
    exact ⟨x, hx, .inr ⟨y, hy, .inl ⟨rfl, hne, rfl⟩⟩⟩
  · rw [heq] at h
    obtain ⟨x, hx, h⟩ := Except.bind_eq_ok.mp h
    obtain ⟨y, hy, h⟩ := Except.bind_eq_ok.mp h
    obtain ⟨x', hx', h⟩ := Except.bind_eq_ok.mp h
    obtain ⟨y', hy', h⟩ := Except.bind_eq_ok.mp h
    cases h
    exact ⟨x, hx, .inr ⟨y, hy, .inr ⟨hop, x', y', hx', hy', rfl⟩⟩⟩

theorem forall₂_of_compileAll : ∀ {es : List Query.Expr} {cs : List Expr},
    s.compileAll es = .ok cs → List.Forall₂ (fun e c => s.compile e = .ok c) es cs
  | [], cs, h => by
    cases h
    exact .nil
  | e :: es, cs, h => by
    rw [compileAll] at h
    obtain ⟨c, hc, h⟩ := Except.bind_eq_ok.mp h
    obtain ⟨rest, hrest, h⟩ := Except.bind_eq_ok.mp h
    cases h
    exact .cons hc (forall₂_of_compileAll hrest)

/-- The constants of a query, and how they are written away from any column. -/
inductive ConstantAs : Query.Expr → Literal → Prop
  | null : ConstantAs .null .null
  | boolean (b : Bool) : ConstantAs (.boolean b) (.boolean b)
  | integer (n : Nat) : ConstantAs (.integer n) (.integer n)
  | number (x : Binary64) : ConstantAs (.number x) (.number x)
  | text (t : String) : ConstantAs (.text t) (.text t)

theorem ConstantAs.exists_value? {l : Literal} (h : ConstantAs e l) : ∃ v, e.value? = some v := by
  cases h <;> exact ⟨_, rfl⟩

/-- What a relation between expressions and what they are compiled to has to satisfy: one condition
for each way in which compiling succeeds.  The other two relations are between lists, the last one
next to something of a type. -/
structure Carries (s : Scope) (rel : Query.Expr → Expr → Prop)
    (all : List Query.Expr → List Expr → Prop)
    (near : Option ColumnType → List Query.Expr → List Expr → Prop) : Prop where
  name {x : String} {r : Resolved} : s.lookupName x = .ok r → rel (.var x) r.expr
  property {x key : String} {r : Resolved} : s.lookupProperty x key = .ok r →
    rel (.property (.var x) key) r.expr
  constant {e : Query.Expr} {l : Literal} : ConstantAs e l → rel e (.literal l)
  list {es : List Query.Expr} {as : List Expr} : all es as → rel (.list es) (.array as)
  not {e : Query.Expr} {a : Expr} : rel e a → rel (.not e) (.not a)
  negate {e : Query.Expr} {a : Expr} : s.compile e = .ok a → rel e a →
    rel (.negate e) (.negate a)
  binary {op : Query.BinaryOp} {l r : Query.Expr} {x y : Expr} : rel l x → rel r y →
    rel (.binary op l r) (.binary op x y)
  nullTest {negated : Bool} {e : Query.Expr} {a : Expr} : rel e a →
    rel (.nullTest negated e) (.nullTest negated a)
  inList {l : Query.Expr} {es : List Query.Expr} {x : Resolved} {ys : List Expr} :
    s.operand l (s.compile l) = .ok x → rel l x.expr → near x.type es ys →
      rel (.compare .isIn l (.list es)) (.inList x.expr ys)
  equalsAny {l r : Query.Expr} {x y : Expr} : (∀ es, r ≠ .list es) → rel l x → rel r y →
    rel (.compare .isIn l r) (.equalsAny x y)
  compare {op : Query.Comparison} {l r : Query.Expr} {x y : Resolved} {x' y' : Expr} :
    op ≠ .isIn → s.compile (.compare op l r) = .ok (comparison op x' y') →
      s.operand l (s.compile l) = .ok x → s.operand r (s.compile r) = .ok y →
      typed l y.type (.ok x.expr) = .ok x' → typed r x.type (.ok y.expr) = .ok y' →
      rel l x.expr → rel r y.expr → rel (.compare op l r) (comparison op x' y')
  call {f : String} {distinct : Bool} {es : List Query.Expr} {as : List Expr} :
    all es as → rel (.call f distinct es) (.call (functionName f) distinct as)
  callStar {f : String} : rel (.callStar f) (.call (functionName f) false [.star])
  nil : all [] []
  cons {e : Query.Expr} {a : Expr} {es : List Query.Expr} {as : List Expr} :
    rel e a → all es as → all (e :: es) (a :: as)
  nearNil {type : Option ColumnType} : near type [] []
  nearCons {type : Option ColumnType} {e : Query.Expr} {a : Expr} {es : List Query.Expr}
      {as : List Expr} :
    typed e type (s.compile e) = .ok a → (∀ b, s.compile e = .ok b → rel e b) → near type es as →
      near type (e :: es) (a :: as)

section

variable {rel : Query.Expr → Expr → Prop}
  {all : List Query.Expr → List Expr → Prop}
  {near : Option ColumnType → List Query.Expr → List Expr → Prop}

mutual

/-- **What is carried by every way of compiling holds of every compiled expression.** -/
theorem Carries.compile (hc : Carries s rel all near) :
    ∀ (e : Query.Expr) {a : Expr}, s.compile e = .ok a → rel e a
  | .var name, a, h => by
    rw [Scope.compile] at h
    obtain ⟨r, hr, rfl⟩ := Except.map_eq_ok.mp h
    exact hc.name hr
  | .property e key, a, h => by
    obtain ⟨name, r, rfl, hr, rfl⟩ := compile_property_eq_ok h
    exact hc.property hr
  | .null, a, h => by cases h; exact hc.constant .null
  | .boolean b, a, h => by cases h; exact hc.constant (.boolean b)
  | .integer n, a, h => by cases h; exact hc.constant (.integer n)
  | .number x, a, h => by cases h; exact hc.constant (.number x)
  | .text t, a, h => by cases h; exact hc.constant (.text t)
  | .list es, a, h => by
    rw [Scope.compile] at h
    obtain ⟨xs, hxs, h⟩ := Except.bind_eq_ok.mp h
    cases h
    exact hc.list (Carries.compileAll hc es hxs)
  | .map _, a, h => by cases h
  | .not e, a, h => by
    rw [Scope.compile] at h
    obtain ⟨x, hx, h⟩ := Except.bind_eq_ok.mp h
    cases h
    exact hc.not (Carries.compile hc e hx)
  | .negate e, a, h => by
    rw [Scope.compile] at h
    obtain ⟨x, hx, h⟩ := Except.bind_eq_ok.mp h
    cases h
    exact hc.negate hx (Carries.compile hc e hx)
  | .binary op l r, a, h => by
    rw [Scope.compile] at h
    obtain ⟨x, hx, h⟩ := Except.bind_eq_ok.mp h
    obtain ⟨y, hy, h⟩ := Except.bind_eq_ok.mp h
    cases h
    exact hc.binary (Carries.compile hc l hx) (Carries.compile hc r hy)
  | .nullTest negated e, a, h => by
    rw [Scope.compile] at h
    obtain ⟨x, hx, h⟩ := Except.bind_eq_ok.mp h
    cases h
    exact hc.nullTest (Carries.compile hc e (compile_of_operand hx))
  | .compare op l r, a, h => by
    -- the recursion goes into a list on the right only when it is seen to be one
    have hlist : ∀ es type ys, r = .list es → s.compileTyped type es = .ok ys → near type es ys := by
      cases r with
      | list es =>
        rintro _ type ys ⟨⟩ hys
        exact Carries.compileTyped hc type es hys
      | _ => exact fun _ _ _ he => nomatch he
    obtain ⟨x, hx, ⟨es, ys, rfl, he, hys, rfl⟩ | ⟨y, hy, hcases⟩⟩ := compile_compare_eq_ok h
    · have hl := Carries.compile hc l (compile_of_operand hx)
      have hys := hlist es x.type ys he hys
      subst he
      exact hc.inList hx hl hys
    · have hl := Carries.compile hc l (compile_of_operand hx)
      have hr := Carries.compile hc r (compile_of_operand hy)
      rcases hcases with ⟨rfl, hne, rfl⟩ | ⟨hop, x', y', hx', hy', rfl⟩
      · exact hc.equalsAny hne hl hr
      · exact hc.compare hop h hx hy hx' hy' hl hr
  | .call f distinct args, a, h => by
    rw [Scope.compile] at h
    obtain ⟨xs, hxs, h⟩ := Except.bind_eq_ok.mp h
    cases h
    exact hc.call (Carries.compileAll hc args hxs)
  | .callStar f, a, h => by
    cases h
    exact hc.callStar

theorem Carries.compileAll (hc : Carries s rel all near) :
    ∀ (es : List Query.Expr) {as : List Expr}, s.compileAll es = .ok as → all es as
  | [], as, h => by cases h; exact hc.nil
  | e :: es, as, h => by
    rw [Scope.compileAll] at h
    obtain ⟨x, hx, h⟩ := Except.bind_eq_ok.mp h
    obtain ⟨xs, hxs, h⟩ := Except.bind_eq_ok.mp h
    cases h
    exact hc.cons (Carries.compile hc e hx) (Carries.compileAll hc es hxs)

theorem Carries.compileTyped (hc : Carries s rel all near) (type : Option ColumnType) :
    ∀ (es : List Query.Expr) {as : List Expr}, s.compileTyped type es = .ok as →
      near type es as
  | [], as, h => by cases h; exact hc.nearNil
  | e :: es, as, h => by
    rw [Scope.compileTyped] at h
    obtain ⟨x, hx, h⟩ := Except.bind_eq_ok.mp h
    obtain ⟨xs, hxs, h⟩ := Except.bind_eq_ok.mp h
    cases h
    exact hc.nearCons hx (fun _ => Carries.compile hc e) (Carries.compileTyped hc type es hxs)

end

end

/-- The references and words of compiled expressions. -/
theorem carries_all (hs : s.Resolves R) (hf : ∀ f, P f → W (functionName f)) :
    Carries s (fun e a => e.Named P → a.All R W)
      (fun es as => Query.Expr.NamedAll P es → Expr.AllOf R W as)
      (fun _ es as => Query.Expr.NamedAll P es → Expr.AllOf R W as) where
  name hr _ := lookupName_all hs hr
  property hr _ := lookupProperty_all hs hr
  constant _ _ := trivial
  list has hn := has hn
  not ha hn := ha hn
  negate _ ha hn := ha hn
  binary hx hy hn := ⟨hx hn.1, hy hn.2⟩
  nullTest ha hn := ha hn
  inList _ hx hys hn := ⟨hx hn.1, hys hn.2⟩
  equalsAny _ hx hy hn := ⟨hx hn.1, hy hn.2⟩
  compare _ _ _ _ hx' hy' hx hy hn := by
    refine comparison_all _ (typed_all ?_ hx') (typed_all ?_ hy')
    · rintro _ ⟨⟩
      exact hx hn.1
    · rintro _ ⟨⟩
      exact hy hn.2
  call has hn := ⟨hf _ hn.1, has hn.2⟩
  callStar hn := ⟨hf _ hn, trivial, trivial⟩
  nil _ := trivial
  cons ha has hn := ⟨ha hn.1, has hn.2⟩
  nearNil _ := trivial
  nearCons ha he has hn := ⟨typed_all (fun b hb => he b hb hn.1) ha, has hn.2⟩

theorem compile_all (hs : s.Resolves R) (hf : ∀ f, P f → W (functionName f)) (e : Query.Expr)
    {a : Expr} (he : e.Named P) (h : s.compile e = .ok a) : a.All R W :=
  (carries_all hs hf).compile e h he

theorem compileAll_all (hs : s.Resolves R) (hf : ∀ f, P f → W (functionName f))
    (es : List Query.Expr) {as : List Expr} (hes : Query.Expr.NamedAll P es)
    (h : s.compileAll es = .ok as) : Expr.AllOf R W as :=
  (carries_all hs hf).compileAll es h hes

/-! ## Conditions of patterns -/

theorem propertyConditions_all (hs : s.Resolves R) (hf : ∀ f, P f → W (functionName f))
    {name : String} {properties : Option Query.Properties} {cs : List Expr}
    (hp : ∀ entries ∈ properties, Query.Expr.NamedEntries P entries)
    (h : s.propertyConditions name properties = .ok cs) : ∀ c ∈ cs, c.All R W := by
  intro c hc
  obtain ⟨entry, hentry, h⟩ := Except.exists_of_mem_mapM h hc
  have hnamed : entry.2.Named P := by
    cases properties with
    | none => simp at hentry
    | some entries => exact (Query.Expr.namedEntries_iff.mp (hp entries rfl) entry hentry).2
  obtain ⟨column, hcolumn, h⟩ := Except.bind_eq_ok.mp h
  obtain ⟨value, hvalue, h⟩ := Except.bind_eq_ok.mp h
  cases h
  exact ⟨lookupProperty_all hs hcolumn,
    typed_all (fun _ => compile_all hs hf entry.2 hnamed) hvalue⟩

section

variable {edge : String} {source : Expr} (direction : Query.Direction)
  (hstart : R edge Schema.edgeSource) (hfinish : R edge Schema.edgeTarget) (hsource : source.All R W)

include hstart hfinish hsource

/-- The condition that joins the edge does not look at the node behind it. -/
theorem joinConditions_fst_all (target : Expr) :
    (joinConditions direction edge source target).1.All R W := by
  cases direction with
  | outgoing => exact ⟨hstart, hsource⟩
  | incoming => exact ⟨hfinish, hsource⟩
  | both => exact ⟨hsource, hstart, hfinish, trivial⟩

theorem joinConditions_snd_all {target : Expr} (htarget : target.All R W) :
    (joinConditions direction edge source target).2.All R W := by
  cases direction with
  | outgoing => exact ⟨htarget, hfinish⟩
  | incoming => exact ⟨htarget, hstart⟩
  | both => exact ⟨htarget, ⟨hstart, hsource⟩, hfinish, hstart⟩

end

theorem typeConditions_all {edge : String} (h : R edge Schema.edgeType) (types : List String) :
    ∀ c ∈ typeConditions edge types, c.All R W := by
  intro c hc
  match types with
  | [] => simp [typeConditions] at hc
  | [t] =>
    obtain rfl := List.mem_singleton.mp hc
    exact ⟨h, trivial⟩
  | t :: u :: ts =>
    obtain rfl := List.mem_singleton.mp hc
    refine ⟨h, Expr.allOf_iff.mpr fun e he => ?_⟩
    obtain ⟨v, -, rfl⟩ := List.mem_map.mp he
    exact trivial

/-! ## Output columns -/

theorem Outputs.all (hs : s.Resolves R) (hf : ∀ f, P f → W (functionName f)) {index : Nat}
    {item : Query.ReturnItem} {c : ResultColumn} (hn : item.expr.Named P)
    (h : Outputs s index item c) : c.expr.All R W := by
  cases h with
  | named _ hc =>
    cases hc with
    | stored hstored hd => exact hs.stored hstored _ hd
    | whole hp hd => exact resolved_all hs hp (mem_of_whole? hd)
    | member hp hd => exact resolved_all hs hp (List.mem_of_mem_filter hd)
  | property _ hr => exact lookupProperty_all hs hr
  | aggregate _ _ _ hexpr => exact compile_all hs hf item.expr hn hexpr
  | call _ _ hexpr => exact compile_all hs hf item.expr hn hexpr
  | other _ _ _ hexpr => exact compile_all hs hf item.expr hn hexpr

/-- The references of output columns, and of the keys that they are grouped by. -/
theorem project_all (hs : s.Resolves R) (hf : ∀ f, P f → W (functionName f))
    {items : List Query.ReturnItem} {p : Projected} (hn : ∀ i ∈ items, i.expr.Named P)
    (h : s.project items = .ok p) :
    (∀ c ∈ p.columns, c.expr.All R W) ∧ ∀ e ∈ p.keys, e.All R W := by
  obtain ⟨hcolumns, hkeys⟩ := exists_outputs_of_project h
  have hall : ∀ c ∈ p.columns, c.expr.All R W := by
    intro c hc
    obtain ⟨item, hitem, index, d, taken, hd, rfl⟩ := hcolumns c hc
    have hexpr : d.expr.All R W := hd.all hs hf (hn item hitem)
    exact hexpr
  refine ⟨hall, fun e he => ?_⟩
  obtain ⟨c, hc, rfl⟩ := hkeys e he
  exact hall c hc

/-! ## Select statements -/

theorem sortKey_all (hs : s.Resolves R) (hf : ∀ f, P f → W (functionName f))
    {columns : List ResultColumn} {key : Query.SortKey} {i : OrderItem}
    (hcolumns : ∀ c ∈ columns, W c.name) (hn : key.expr.Named P)
    (h : s.sortKey columns key = .ok i) : i.All R W := by
  unfold sortKey at h
  split at h
  · rename_i c hc
    cases h
    unfold wholeOutput? at hc
    split at hc
    · exact .inl ⟨c.name, rfl, hcolumns c (mem_of_whole? hc)⟩
    · cases hc
  · obtain ⟨x, hx, h⟩ := Except.bind_eq_ok.mp h
    cases h
    exact .inr (compile_all hs hf key.expr hn hx)

/-- The parts of a select statement over a scope: its output columns, the conditions of its clauses, and
what the rest of the projection is compiled to. -/
structure Selects (s : Scope) (conditions : List Query.Expr) (p : Query.Projection)
    (projected : Projected) (compiled : List Expr) (select : Relational.Select) : Prop where
  project_eq : s.project p.items = .ok projected
  compileAll_eq : s.compileAll conditions = .ok compiled
  orderBy_eq : p.orderBy.mapM (s.sortKey projected.columns) = .ok select.orderBy
  offset_eq : p.skip.mapM s.compile = .ok select.offset
  limit_eq : p.limit.mapM s.compile = .ok select.limit
  distinct : select.distinct = p.distinct
  items : select.items = projected.columns.map ResultColumn.item
  sources : select.sources = s.sources
  conditions : select.conditions = s.conditions ++ compiled
  groupBy : select.groupBy = if p.items.any fun i => i.expr.aggregates then projected.keys else []

variable {conditions : List Query.Expr} {p : Query.Projection} {projected : Projected}
  {compiled : List Expr} {select : Relational.Select}

/-- A select statement is made when each of its parts is. -/
theorem selectOver_eq_ok {columns : List ResultColumn} :
    Plan.selectOver s conditions p = .ok (columns, select) ↔ ∃ projected compiled,
      columns = projected.columns ∧ s.Selects conditions p projected compiled select := by
  constructor
  · intro h
    obtain ⟨projected, hprojected, h⟩ := Except.bind_eq_ok.mp h
    obtain ⟨compiled, hcompiled, h⟩ := Except.bind_eq_ok.mp h
    obtain ⟨orderBy, horder, h⟩ := Except.bind_eq_ok.mp h
    obtain ⟨offset, hoffset, h⟩ := Except.bind_eq_ok.mp h
    obtain ⟨limit, hlimit, h⟩ := Except.bind_eq_ok.mp h
    cases h
    exact ⟨projected, compiled, rfl, hprojected, hcompiled, horder, hoffset, hlimit, rfl, rfl, rfl,
      rfl, rfl⟩
  · rintro ⟨projected, compiled, rfl, h⟩
    refine Except.bind_eq_ok.mpr ⟨projected, h.project_eq, ?_⟩
    refine Except.bind_eq_ok.mpr ⟨compiled, h.compileAll_eq, ?_⟩
    refine Except.bind_eq_ok.mpr ⟨_, h.orderBy_eq, ?_⟩
    refine Except.bind_eq_ok.mpr ⟨_, h.offset_eq, ?_⟩
    refine Except.bind_eq_ok.mpr ⟨_, h.limit_eq, ?_⟩
    rw [← h.distinct, ← h.items, ← h.sources, ← h.conditions, ← h.groupBy]
    rfl

theorem Selects.mem_keys (h : s.Selects conditions p projected compiled select) {e : Expr}
    (he : e ∈ select.groupBy) : e ∈ projected.keys := by
  rw [h.groupBy] at he
  split at he
  · exact he
  · cases he

/-- **The references of a select statement** are those of its sources and what the scope hands
out. -/
theorem Selects.all (h : s.Selects conditions p projected compiled select) (hs : s.Resolves R)
    (hf : ∀ f, P f → W (functionName f)) (hconditions : ∀ e ∈ conditions, e.Named P) (hp : p.Named P)
    (hsources : ∀ x ∈ s.sources, x.All R W) (hscope : ∀ e ∈ s.conditions, e.All R W)
    (hcolumns : ∀ c ∈ projected.columns, W c.name) : select.All R W := by
  obtain ⟨hitems, hkeys⟩ := project_all hs hf (fun i hi => (hp.items i hi).expr) h.project_eq
  have hwhere := Expr.allOf_iff.mp
    (compileAll_all hs hf conditions (Query.Expr.namedAll_iff.mpr hconditions) h.compileAll_eq)
  constructor
  · rw [h.items]
    intro i hi
    obtain ⟨c, hc, rfl⟩ := List.mem_map.mp hi
    exact ⟨hitems c hc, hcolumns c hc⟩
  · exact h.sources ▸ hsources
  · rw [h.conditions]
    exact fun e he => (List.mem_append.mp he).elim (hscope e) (hwhere e)
  · exact fun e he => hkeys e (h.mem_keys he)
  · intro i hi
    obtain ⟨key, hkey, h⟩ := Except.exists_of_mem_mapM h.orderBy_eq hi
    exact sortKey_all hs hf hcolumns (hp.orderBy key hkey) h
  · intro e he
    obtain ⟨x, hx, h⟩ := Except.exists_of_mem_option_mapM h.offset_eq he
    exact compile_all hs hf x (hp.skip x hx) h
  · intro e he
    obtain ⟨x, hx, h⟩ := Except.exists_of_mem_option_mapM h.limit_eq he
    exact compile_all hs hf x (hp.limit x hx) h

end

end Scope

/-- **A plan is made of a scope that reads the patterns and of a select statement over it.** -/
theorem Plan.ofClauses_eq_ok {schema : Schema} {relations : List (String × Relation)}
    {ms : List Query.Matching} {p : Query.Projection} {plan : Plan} :
    ofClauses schema relations ms p = .ok plan ↔ ∃ s projected compiled select,
      Scope.addPatterns schema { relations } (ms.flatMap Query.Matching.patterns) = .ok s ∧
      s.Selects (ms.filterMap Query.Matching.condition) p projected compiled select ∧
      plan = { nodes := s.nodes, edges := s.edges, projection := projected.columns, select
               predicate := conjunction (ms.filterMap Query.Matching.condition) } := by
  constructor
  · intro h
    obtain ⟨s, hs, h⟩ := Except.bind_eq_ok.mp h
    obtain ⟨⟨columns, select⟩, hselect, h⟩ := Except.bind_eq_ok.mp h
    cases h
    obtain ⟨projected, compiled, rfl, hparts⟩ := Scope.selectOver_eq_ok.mp hselect
    exact ⟨s, projected, compiled, select, hs, hparts, rfl⟩
  · rintro ⟨s, projected, compiled, select, hs, hparts, rfl⟩
    have hselect := Scope.selectOver_eq_ok.mpr ⟨projected, compiled, rfl, hparts⟩
    exact Except.bind_eq_ok.mpr ⟨s, hs, Except.bind_eq_ok.mpr ⟨_, hselect, rfl⟩⟩

/-- The output columns of a plan are those of its statement. -/
theorem Plan.items_eq_of_ofClauses {schema : Schema} {relations : List (String × Relation)}
    {ms : List Query.Matching} {p : Query.Projection} {plan : Plan}
    (h : ofClauses schema relations ms p = .ok plan) :
    plan.select.items = plan.projection.map ResultColumn.item := by
  obtain ⟨s, projected, compiled, select, -, hselect, rfl⟩ := ofClauses_eq_ok.mp h
  exact hselect.items

end GraphSql
