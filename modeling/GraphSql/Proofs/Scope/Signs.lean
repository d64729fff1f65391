import GraphSql.Proofs.Query.Signs
import GraphSql.Proofs.Scope.Compile
import GraphSql.Proofs.Scope.Steps

/-!
# Minus signs in a plan

Compiling an expression keeps its minus signs where they are and adds none, so the minus signs of a
plan stand apart when those of its clauses do (`Plan.signsApart_ofClauses`).  All else that a plan
writes is columns and texts, which have no minus signs.
-/

namespace GraphSql

open Query (NodePattern Hop Pattern)

/-! ## Constants -/

theorem Binary64.nonneg_of_toInt? {x : Binary64} {n : Int} (hx : x.signed = false)
    (h : x.toInt? = some n) : 0 ≤ n := by
  cases x with
  | nan => cases h
  | infinite negative => cases h
  | finite negative m e =>
    obtain rfl : negative = false := hx
    simp only [toInt?, Bool.false_eq_true, if_false] at h
    split at h
    · cases h
      exact Int.natCast_nonneg _
    · cases h

theorem Value.nonneg_of_toInteger? {v : Value} {n : Int} (hv : v.opensSigned = false)
    (h : v.toInteger? = some n) : 0 ≤ n := by
  cases v with
  | integer m =>
    cases h
    simpa [opensSigned] using hv
  | number x => exact Binary64.nonneg_of_toInt? hv h
  | text s =>
    have hread : Numeral.read? s = some n := h
    simpa [opensSigned, hread] using hv
  | _ => cases h

/-- A constant made from an unsigned value is unsigned, whatever column it stands next to. -/
theorem Relational.Literal.opensSigned_ofValueFor {v : Value} (hv : v.opensSigned = false)
    (type : Option ColumnType) : (ofValueFor type v).opensSigned = false := by
  have hinteger : ((v.toInteger?.map integer).getD .null).opensSigned = false := by
    cases hn : v.toInteger? with
    | none => rfl
    | some n => simpa [opensSigned] using Value.nonneg_of_toInteger? hv hn
  have htext : ((v.toText?.map text).getD .null).opensSigned = false := by
    cases v.toText? <;> rfl
  have harray :
      (((v.elements?.bind (·.mapM element?)).map textArray).getD .null).opensSigned = false := by
    cases v.elements?.bind (·.mapM element?) <;> rfl
  cases type with
  | none =>
    cases v with
    | integer n => exact hv
    | number x => exact hv
    | _ => rfl
  | some type =>
    cases v with
    | null => rfl
    | _ =>
      cases type with
      | int => exact hinteger
      | bigint => exact hinteger
      | text => exact htext
      | textArray => exact harray

namespace Scope

open Relational (Expr)

variable {schema : Schema} {s s' : Scope}

/-! ## Lookup -/

theorem signs_lookupName {x : String} {r : Resolved} (h : s.lookupName x = .ok r) :
    r.expr.SignsApart ∧ r.expr.opensSigned = false := by
  rcases lookupName_eq_ok h with ⟨n, table, columns, labels, -, -, rfl⟩ | ⟨e, -, rfl⟩ |
    ⟨p, -, c, -, rfl⟩
  · exact ⟨trivial, rfl⟩
  · exact ⟨⟨trivial, trivial, trivial, trivial⟩, rfl⟩
  · exact ⟨trivial, rfl⟩

theorem signs_lookupProperty {x key : String} {r : Resolved} (h : s.lookupProperty x key = .ok r) :
    r.expr.SignsApart ∧ r.expr.opensSigned = false := by
  rcases lookupProperty_eq_ok h with ⟨table, columns, c, -, -, rfl⟩ | ⟨p, -, c, -, rfl⟩
  · exact ⟨trivial, rfl⟩
  · exact ⟨trivial, rfl⟩

/-! ## Expressions -/

theorem opensSigned_comparison (op : Query.Comparison) (l r : Expr) :
    (comparison op l r).opensSigned = l.opensSigned := by
  cases op <;> rfl

theorem signsApart_comparison (op : Query.Comparison) {l r : Expr} (hl : l.SignsApart)
    (hr : r.SignsApart) : (comparison op l r).SignsApart := by
  cases op <;> exact ⟨hl, hr⟩

theorem opensSigned_constant {e : Query.Expr} {l : Relational.Literal} (h : ConstantAs e l)
    (he : e.opensSigned = false) : l.opensSigned = false := by
  cases h with
  | integer n => simp [Relational.Literal.opensSigned]
  | number x => exact he
  | _ => rfl

/-- What an expression starts with is decided by its leftmost part, which lists do not have. -/
theorem carries_opensSigned : Carries s (fun e a => e.opensSigned = false → a.opensSigned = false)
    (fun _ _ => True) (fun _ _ _ => True) where
  name hr _ := (signs_lookupName hr).2
  property hr _ := (signs_lookupProperty hr).2
  constant hl he := opensSigned_constant hl he
  list _ _ := rfl
  not _ _ := rfl
  negate _ _ he := by cases he
  binary _ _ _ := rfl
  nullTest ha he := ha he
  inList _ hx _ he := hx he
  equalsAny _ hx _ he := hx he
  compare hop _ _ _ hx' _ hx _ he := by
    rw [opensSigned_comparison]
    rw [Query.Expr.opensSigned_compare hop] at he
    rcases typed_eq_ok hx' with ⟨v, hv, rfl⟩ | ⟨hnone, hx'⟩
    · rw [hv] at he
      exact Relational.Literal.opensSigned_ofValueFor he _
    · rw [hnone] at he
      cases hx'
      exact hx he
  call _ _ := rfl
  callStar _ := rfl
  nil := trivial
  cons _ _ := trivial
  nearNil := trivial
  nearCons _ _ _ := trivial

/-- A literal is written as its value; everything else keeps its minus signs apart. -/
theorem signsApart_typed {e : Query.Expr} {type : Option ColumnType}
    {x : Except Error Expr} {a : Expr}
    (he : e.value?.isSome = true ∨ e.SignsApart) (hx : e.SignsApart → ∀ a, x = .ok a → a.SignsApart)
    (h : typed e type x = .ok a) : a.SignsApart := by
  rcases typed_eq_ok h with ⟨v, -, rfl⟩ | ⟨hnone, hok⟩
  · exact trivial
  · have hapart : e.SignsApart := he.resolve_left (by simp [hnone])
    exact hx hapart a hok

/-- Compiling an expression keeps its minus signs apart. -/
theorem carries_signsApart : Carries s (fun e a => e.SignsApart → a.SignsApart)
    (fun es as => Query.Expr.signsApartAll es = true → Expr.SignsApartAll as)
    (fun _ es as => Query.Expr.signsApartTyped es = true → Expr.SignsApartAll as) where
  name hr _ := (signs_lookupName hr).1
  property hr _ := (signs_lookupProperty hr).1
  constant _ _ := trivial
  list has he := has he
  not ha he := ha he
  negate h ha he := by
    obtain ⟨hopens, he⟩ := Query.Expr.signsApart_negate.mp he
    exact ⟨carries_opensSigned.compile _ h hopens, ha he⟩
  binary hx hy he := by
    obtain ⟨hl, hr⟩ := Query.Expr.signsApart_binary.mp he
    exact ⟨hx hl, hy hr⟩
  nullTest ha he := ha he
  inList _ hx hys he := by
    obtain ⟨hl, hes⟩ := Query.Expr.signsApart_isIn_list.mp he
    exact ⟨hx hl, hys hes⟩
  equalsAny hne hx hy he := by
    obtain ⟨hl, hr⟩ := (Query.Expr.signsApart_isIn hne).mp he
    exact ⟨hx hl, hy hr⟩
  compare hop _ _ _ hx' hy' hx hy he := by
    obtain ⟨hl, hr⟩ := (Query.Expr.signsApart_compare hop).mp he
    refine signsApart_comparison _ (signsApart_typed hl ?_ hx') (signsApart_typed hr ?_ hy')
    · rintro hl _ ⟨⟩
      exact hx hl
    · rintro hr _ ⟨⟩
      exact hy hr
  call has he := has he
  callStar _ := ⟨trivial, trivial⟩
  nil _ := trivial
  cons ha has he := by
    rw [Query.Expr.signsApartAll, Bool.and_eq_true] at he
    exact ⟨ha he.1, has he.2⟩
  nearNil _ := trivial
  nearCons ha hb has he := by
    rw [Query.Expr.signsApartTyped, Bool.and_eq_true, Bool.or_eq_true] at he
    exact ⟨signsApart_typed he.1 (fun he b h => hb b h he) ha, has he.2⟩

theorem signsApart_compile (e : Query.Expr) {a : Expr} (he : e.SignsApart)
    (h : s.compile e = .ok a) : a.SignsApart :=
  carries_signsApart.compile e h he

theorem signsApart_compileAll (es : List Query.Expr) {as : List Expr}
    (hes : Query.Expr.signsApartAll es = true) (h : s.compileAll es = .ok as) :
    Expr.SignsApartAll as :=
  carries_signsApart.compileAll es h hes

/-! ## Patterns -/

theorem signsApart_propertyConditions {name : String} {properties : Option Query.Properties}
    {cs : List Expr}
    (hp : ∀ entries ∈ properties, (Query.Expr.map entries).SignsApart)
    (h : s.propertyConditions name properties = .ok cs) : ∀ c ∈ cs, c.SignsApart := by
  intro c hc
  obtain ⟨entry, hentry, h⟩ := Except.exists_of_mem_mapM h hc
  have hvalue : entry.2.value?.isSome = true ∨ entry.2.SignsApart := by
    cases properties with
    | none => simp at hentry
    | some entries => exact Query.Expr.signsApart_of_mem_entries (hp entries rfl) hentry
  obtain ⟨column, hcolumn, h⟩ := Except.bind_eq_ok.mp h
  obtain ⟨value, hok, h⟩ := Except.bind_eq_ok.mp h
  cases h
  exact ⟨(signs_lookupProperty hcolumn).1,
    signsApart_typed hvalue (fun he _ => signsApart_compile entry.2 he) hok⟩

theorem signsApart_joinConditions (direction : Query.Direction) (edge : String)
    {source target : Expr} (hsource : source.SignsApart) (htarget : target.SignsApart) :
    (joinConditions direction edge source target).1.SignsApart ∧
      (joinConditions direction edge source target).2.SignsApart := by
  cases direction with
  | outgoing => exact ⟨⟨trivial, hsource⟩, htarget, trivial⟩
  | incoming => exact ⟨⟨trivial, hsource⟩, htarget, trivial⟩
  | both =>
    exact ⟨⟨hsource, trivial, trivial, trivial⟩, htarget, ⟨trivial, hsource⟩, trivial, trivial⟩

theorem signsApart_typeConditions (edge : String) (types : List String) :
    ∀ c ∈ typeConditions edge types, c.SignsApart := by
  intro c hc
  match types with
  | [] => simp [typeConditions] at hc
  | [t] =>
    obtain rfl := List.mem_singleton.mp hc
    exact ⟨trivial, trivial⟩
  | t :: u :: ts =>
    obtain rfl := List.mem_singleton.mp hc
    refine ⟨trivial, Expr.signsApartAll_iff.mpr fun e he => ?_⟩
    obtain ⟨v, -, rfl⟩ := List.mem_map.mp he
    exact trivial

/-- No condition that a scope has collected has minus signs in a row. -/
structure SignsApart (s : Scope) : Prop where
  sources : ∀ x ∈ s.sources, ∀ e ∈ x.join.conditions, e.SignsApart
  conditions : ∀ e ∈ s.conditions, e.SignsApart

section

variable {P : String → Prop}

theorem SignsApart.nameFor {kind name : String} {variableName : Option String} {s₀ : Scope}
    (hs : s.SignsApart) (h : s.nameFor kind variableName = (name, s₀)) : s₀.SignsApart := by
  rcases nameFor_cases h with ⟨-, rfl⟩ | ⟨-, -, rfl⟩
  · exact hs
  · exact ⟨hs.sources, hs.conditions⟩

theorem SignsApart.addConditions {cs : List Expr} (hs : s.SignsApart)
    (hcs : ∀ e ∈ cs, e.SignsApart) : (s.addConditions cs).SignsApart :=
  ⟨hs.sources, fun e he => (List.mem_append.mp he).elim (hs.conditions e) (hcs e)⟩

theorem SignsApart.addNode {p : NodePattern} {n : BoundNode} {isNew : Bool} (hs : s.SignsApart)
    (hp : p.Holds P Query.Expr.SignsApart) (h : addNode schema s p = .ok (s', n, isNew)) :
    s'.SignsApart := by
  obtain ⟨name, s₀, hname, hcases⟩ := addNode_cases h
  have hs₀ := hs.nameFor hname
  -- binding the variable leaves the conditions alone
  have hput : (s₀.putNode n).SignsApart := ⟨hs₀.sources, hs₀.conditions⟩
  rcases hcases with ⟨m, filters, -, -, -, hfilters, -, rfl⟩ |
    ⟨source, filters, -, -, -, -, hfilters, -, rfl⟩
  · exact hput.addConditions (signsApart_propertyConditions hp.properties hfilters)
  · exact hput.addConditions (signsApart_propertyConditions hp.properties hfilters)

theorem SignsApart.hop {source : String} {hop : Hop} (hs : s.SignsApart)
    (hp : hop.Holds P Query.Expr.SignsApart) (step : HopStep schema s source hop) :
    step.scope.SignsApart := by
  have hnamed := hs.nameFor step.nameFor_eq
  have hbound : step.bound.SignsApart := by
    refine SignsApart.addNode ?_ hp.node step.addNode_eq
    exact ⟨hnamed.sources, hnamed.conditions⟩
  have hjoin : step.conditions.1.SignsApart ∧ step.conditions.2.SignsApart :=
    signsApart_joinConditions _ _ (signs_lookupProperty step.sourceKey_eq).1
      (signs_lookupProperty step.targetKey_eq).1
  constructor
  · rw [step.scope_sources]
    intro x hx
    rcases List.mem_append.mp hx with hx | hx
    · exact hbound.sources x hx
    · unfold HopStep.newSources at hx
      split at hx
      · rcases List.mem_pair.mp hx with rfl | rfl
        · simpa [Relational.Join.conditions] using hjoin.1
        · simpa [Relational.Join.conditions] using hjoin.2
      · obtain rfl := List.mem_singleton.mp hx
        simpa [Relational.Join.conditions] using hjoin
  · rw [step.scope_conditions]
    intro e he
    rcases List.mem_append.mp he with he | he
    · rcases List.mem_append.mp he with he | he
      · exact hbound.conditions e he
      · exact signsApart_typeConditions _ _ e he
    · exact signsApart_propertyConditions hp.relationship.properties step.filters_eq e he

theorem SignsApart.addPatterns {ps : List Pattern} (hs : s.SignsApart)
    (hp : ∀ p ∈ ps, p.Holds P Query.Expr.SignsApart) (h : addPatterns schema s ps = .ok s') :
    s'.SignsApart := by
  refine addPatterns_induction (J := fun s _ => s.SignsApart) (fun p hmem s s₁ n isNew hs hnode => ?_)
    (fun p hmem hop hhop _ _ step hs => hs.hop ((hp p hmem).hops hop hhop) step) (fun _ _ hs => hs) hs h
  have h₁ := hs.addNode (hp p hmem).first hnode
  split
  · refine ⟨fun x hx => ?_, h₁.conditions⟩
    rcases List.mem_append.mp hx with hx | hx
    · exact h₁.sources x hx
    · obtain rfl := List.mem_singleton.mp hx
      simp [Relational.Join.conditions]
  · exact h₁

end

/-! ## Output columns -/

theorem Outputs.signsApart {index : Nat} {item : Query.ReturnItem} {c : ResultColumn}
    (he : item.expr.SignsApart) (h : Outputs s index item c) : c.expr.SignsApart := by
  cases h with
  | named _ hc =>
    cases hc with
    | stored => exact trivial
    | whole => exact trivial
    | member => exact trivial
  | property _ hr => exact (signs_lookupProperty hr).1
  | aggregate _ _ _ hexpr => exact signsApart_compile item.expr he hexpr
  | call _ _ hexpr => exact signsApart_compile item.expr he hexpr
  | other _ _ _ hexpr => exact signsApart_compile item.expr he hexpr

theorem signsApart_sortKey {columns : List ResultColumn} {key : Query.SortKey}
    {i : Relational.OrderItem} (he : key.expr.SignsApart) (h : s.sortKey columns key = .ok i) :
    i.expr.SignsApart := by
  unfold sortKey at h
  split at h
  · cases h
    exact trivial
  · obtain ⟨x, hx, h⟩ := Except.bind_eq_ok.mp h
    cases h
    exact signsApart_compile key.expr he hx

/-- The minus signs of a select statement over a scope. -/
theorem Selects.signsApart {P : String → Prop} {conditions : List Query.Expr} {p : Query.Projection}
    {projected : Projected} {compiled : List Expr} {select : Relational.Select}
    (h : s.Selects conditions p projected compiled select) (hs : s.SignsApart)
    (hconditions : ∀ e ∈ conditions, e.SignsApart) (hp : p.Holds P Query.Expr.SignsApart) :
    select.SignsApart := by
  obtain ⟨houtputs, hkeys⟩ := exists_outputs_of_project h.project_eq
  have hitems : ∀ c ∈ projected.columns, c.expr.SignsApart := by
    intro c hc
    obtain ⟨item, hitem, index, d, taken, hd, rfl⟩ := houtputs c hc
    have hexpr : d.expr.SignsApart := hd.signsApart (hp.items item hitem).expr
    exact hexpr
  constructor
  · rw [h.items]
    intro i hi
    obtain ⟨c, hc, rfl⟩ := List.mem_map.mp hi
    exact hitems c hc
  · exact h.sources ▸ hs.sources
  · rw [h.conditions]
    intro e he
    rcases List.mem_append.mp he with he | he
    · exact hs.conditions e he
    · have hcompiled := signsApart_compileAll conditions
        (Query.Expr.signsApartAll_iff.mpr hconditions) h.compileAll_eq
      exact Expr.signsApartAll_iff.mp hcompiled e he
  · intro e he
    obtain ⟨c, hc, rfl⟩ := hkeys e (h.mem_keys he)
    exact hitems c hc
  · intro i hi
    obtain ⟨key, hkey, h⟩ := Except.exists_of_mem_mapM h.orderBy_eq hi
    exact signsApart_sortKey (hp.orderBy key hkey) h
  · intro e he
    obtain ⟨x, hx, h⟩ := Except.exists_of_mem_option_mapM h.offset_eq he
    exact signsApart_compile x (hp.skip x hx) h
  · intro e he
    obtain ⟨x, hx, h⟩ := Except.exists_of_mem_option_mapM h.limit_eq he
    exact signsApart_compile x (hp.limit x hx) h

end Scope

/-- **The minus signs of a plan stand apart when those of its clauses do.** -/
theorem Plan.signsApart_ofClauses {schema : Schema} {relations : List (String × Relation)}
    {ms : List Query.Matching} {p : Query.Projection} {plan : Plan} {P : String → Prop}
    (hms : ∀ m ∈ ms, m.Holds P Query.Expr.SignsApart) (hp : p.Holds P Query.Expr.SignsApart)
    (h : Plan.ofClauses schema relations ms p = .ok plan) : plan.select.SignsApart := by
  obtain ⟨s, projected, compiled, select, hs, hselect, rfl⟩ := ofClauses_eq_ok.mp h
  have hpatterns : ∀ p ∈ ms.flatMap Query.Matching.patterns, p.Holds P Query.Expr.SignsApart := by
    intro p hp
    obtain ⟨m, hm, hp⟩ := List.mem_flatMap.mp hp
    exact (hms m hm).patterns p hp
  have hconditions : ∀ e ∈ ms.filterMap Query.Matching.condition, e.SignsApart := by
    intro e he
    obtain ⟨m, hm, he⟩ := List.mem_filterMap.mp he
    exact (hms m hm).condition e he
  have hstart : Scope.SignsApart { relations } := ⟨by simp, by simp⟩
  exact hselect.signsApart (hstart.addPatterns hpatterns hs) hconditions hp

end GraphSql
