import GraphSql.Proofs.Query.Aggregates
import GraphSql.Proofs.Relational.Constants
import GraphSql.Proofs.Scope.Aliases

/-!
# What a projection is grouped by

A projection falls into parts, one for each item with the columns that it gives
(`Scope.exists_parts_of_project`).  The statement is grouped when some item calls an aggregate outside
of lists, and then by all columns of the items that do not (`Plan.groupsBy_of_ofClauses`).  A call
inside of a list goes unnoticed (`Plan.groupBy_of_listed_call`).

An item is taken as it is, so a literal among the items becomes a constant among the keys.  There is no
other way to get one (`Plan.exists_constant_key_iff`).
-/

namespace GraphSql

open Query (Matching Projection ReturnItem aliasedPatterns)

/-- An item of a projection with the columns that it gives. -/
abbrev Part := ReturnItem × List ResultColumn

/-! ## The parts of a projection -/

namespace Scope

variable {s : Scope}

/-- The columns are those of an item, under names that are free. -/
def Gives (s : Scope) (part : Part) : Prop :=
  ∃ index wanted taken, s.itemColumns index part.1 = .ok wanted ∧ part.2 = freshColumns taken wanted

/-- The keys that a part contributes. -/
def keysOf (part : Part) : List Relational.Expr :=
  if part.1.expr.aggregates then [] else part.2.map ResultColumn.expr

/-- The parts of a projection, behind what was projected before. -/
theorem exists_parts_of_foldlM : ∀ {items : List (ReturnItem × Nat)} {p p' : Projected},
    items.foldlM s.addItem p = .ok p' → ∃ parts : List Part,
      parts.map Prod.fst = items.map Prod.fst ∧ (∀ part ∈ parts, s.Gives part) ∧
      p'.columns = p.columns ++ parts.flatMap Prod.snd ∧ p'.keys = p.keys ++ parts.flatMap keysOf
  | [], p, p', h => by
    cases h
    exact ⟨[], rfl, by simp, by simp, by simp⟩
  | item :: items, p, p', h => by
    rw [List.foldlM_cons] at h
    obtain ⟨p₁, hstep, h⟩ := Except.bind_eq_ok.mp h
    obtain ⟨wanted, hwanted, hstep⟩ := Except.bind_eq_ok.mp hstep
    cases hstep
    obtain ⟨parts, hitems, hgives, hcolumns, hkeys⟩ := exists_parts_of_foldlM h
    refine ⟨(item.1, freshColumns (p.columns.map ResultColumn.name) wanted) :: parts,
      by rw [List.map_cons, List.map_cons, hitems], ?_, ?_, ?_⟩
    · intro part hpart
      rcases List.mem_cons.mp hpart with rfl | hpart
      · exact ⟨item.2, wanted, _, hwanted, rfl⟩
      · exact hgives part hpart
    · rw [hcolumns, List.flatMap_cons, List.append_assoc]
    · rw [hkeys, List.flatMap_cons, keysOf]
      dsimp only
      split
      · rfl
      · rw [List.append_assoc]

/-- **A projection falls into the parts of its items.** -/
theorem exists_parts_of_project {items : List ReturnItem} {p : Projected}
    (h : s.project items = .ok p) : ∃ parts : List Part,
      parts.map Prod.fst = items ∧ (∀ part ∈ parts, s.Gives part) ∧
      p.columns = parts.flatMap Prod.snd ∧ p.keys = parts.flatMap keysOf := by
  obtain ⟨parts, hitems, hgives, hcolumns, hkeys⟩ := exists_parts_of_foldlM h
  rw [List.zipIdx_map_fst] at hitems
  exact ⟨parts, hitems, hgives, hcolumns, hkeys⟩

end Scope

/-! ## Keys -/

/-- When some item has `P`, the keys are the columns of the items without `P`; otherwise there are
none. -/
structure GroupsBy (P : Query.Expr → Prop) (parts : List Part) (groupBy : List Relational.Expr) :
    Prop where
  columns : (∃ part ∈ parts, P part.1.expr) →
    ∀ part ∈ parts, ¬ P part.1.expr → ∀ c ∈ part.2, c.expr ∈ groupBy
  entries : ∀ e ∈ groupBy, (∃ part ∈ parts, P part.1.expr) ∧
    ∃ part ∈ parts, ¬ P part.1.expr ∧ ∃ c ∈ part.2, e = c.expr

theorem GroupsBy.congr {P Q : Query.Expr → Prop} {parts : List Part}
    {groupBy : List Relational.Expr} (h : GroupsBy P parts groupBy)
    (hPQ : ∀ part ∈ parts, P part.1.expr ↔ Q part.1.expr) : GroupsBy Q parts groupBy where
  columns := by
    rintro ⟨part, hpart, hQ⟩ part' hpart' hnot
    exact h.columns ⟨part, hpart, (hPQ part hpart).mpr hQ⟩ part' hpart'
      fun hP => hnot ((hPQ part' hpart').mp hP)
  entries := by
    intro e he
    obtain ⟨⟨part, hpart, hP⟩, part', hpart', hnot, hc⟩ := h.entries e he
    exact ⟨⟨part, hpart, (hPQ part hpart).mp hP⟩, part', hpart',
      fun hQ => hnot ((hPQ part' hpart').mpr hQ), hc⟩

namespace Plan

variable {schema : Schema} {relations : List (String × Relation)} {ms : List Matching}
  {p : Projection} {plan : Plan}

theorem groupsBy_keysOf (parts : List Part) :
    GroupsBy Query.Expr.CallsOpenly parts
      (if parts.any fun part => part.1.expr.aggregates then parts.flatMap Scope.keysOf else []) where
  columns := by
    rintro ⟨part, hpart, hopen⟩ part' hpart' hnot c hc
    have hany : (parts.any fun part => part.1.expr.aggregates) = true :=
      List.any_eq_true.mpr ⟨part, hpart, hopen.aggregates⟩
    rw [if_pos hany]
    refine List.mem_flatMap.mpr ⟨part', hpart', ?_⟩
    rw [Scope.keysOf, if_neg fun hagg => hnot (Query.Expr.aggregates_iff.mp hagg)]
    exact List.mem_map_of_mem hc
  entries := by
    intro e he
    split at he
    · rename_i hany
      obtain ⟨part, hpart, hagg⟩ := List.any_eq_true.mp hany
      obtain ⟨part', hpart', he⟩ := List.mem_flatMap.mp he
      refine ⟨⟨part, hpart, Query.Expr.aggregates_iff.mp hagg⟩, part', hpart', ?_⟩
      unfold Scope.keysOf at he
      split at he
      · cases he
      · rename_i hnot
        obtain ⟨c, hc, rfl⟩ := List.mem_map.mp he
        exact ⟨fun hopen => hnot hopen.aggregates, c, hc, rfl⟩
    · cases he

/-- The parts of the projection of a plan, and the keys that they make. -/
theorem exists_parts (h : Plan.ofClauses schema relations ms p = .ok plan) :
    ∃ s parts, Scope.addPatterns schema { relations } (ms.flatMap Matching.patterns) = .ok s ∧
      plan.nodes = s.nodes ∧ plan.edges = s.edges ∧
      parts.map Prod.fst = p.items ∧ (∀ part ∈ parts, s.Gives part) ∧
      plan.projection = parts.flatMap Prod.snd ∧
      GroupsBy Query.Expr.CallsOpenly parts plan.select.groupBy := by
  obtain ⟨s, projected, compiled, select, hs, hselect, rfl⟩ := ofClauses_eq_ok.mp h
  obtain ⟨parts, hitems, hgives, hcolumns, hkeys⟩ :=
    Scope.exists_parts_of_project hselect.project_eq
  refine ⟨s, parts, hs, rfl, rfl, hitems, hgives, hcolumns, ?_⟩
  have hany : (p.items.any fun i => i.expr.aggregates) =
      parts.any fun part => part.1.expr.aggregates := by
    rw [← hitems, List.any_map]
    rfl
  dsimp only
  rw [hselect.groupBy, hany, hkeys]
  exact groupsBy_keysOf parts

/-- **A projection with an aggregate outside of lists is grouped by the columns of all other items.**
When every item that calls an aggregate calls one outside of lists, these are the items without any
call. -/
theorem groupsBy_of_ofClauses (h : Plan.ofClauses schema relations ms p = .ok plan) :
    ∃ s parts, Scope.addPatterns schema { relations } (ms.flatMap Matching.patterns) = .ok s ∧
      parts.map Prod.fst = p.items ∧ (∀ part ∈ parts, s.Gives part) ∧
      plan.projection = parts.flatMap Prod.snd ∧
      GroupsBy Query.Expr.CallsOpenly parts plan.select.groupBy ∧
      ((∀ item ∈ p.items, item.expr.CallsAggregate → item.expr.CallsOpenly) →
        GroupsBy Query.Expr.CallsAggregate parts plan.select.groupBy) := by
  obtain ⟨s, parts, hs, -, -, hitems, hgives, hcolumns, hgroups⟩ := exists_parts h
  refine ⟨s, parts, hs, hitems, hgives, hcolumns, hgroups, fun hopen => ?_⟩
  refine hgroups.congr fun part hpart => ⟨fun h => h.callsAggregate, fun hcalls => ?_⟩
  refine hopen part.1 ?_ hcalls
  rw [← hitems]
  exact List.mem_map_of_mem hpart

/-- The clause `MATCH (n)`. -/
def tallyClauses : List Matching := [⟨[⟨{ name := some "n" }, []⟩], none⟩]

/-- The call `count(n)`. -/
def tallyCall : Query.Expr := .call "count" false [.var "n"]

/-- The items `n.label, NOT (count(n) > 2)`. -/
def tallyItems : List ReturnItem :=
  [⟨.property (.var "n") "label", none⟩, ⟨.not (.compare .gt tallyCall (.integer 2)), none⟩]

theorem groupsBy_of_ofClauses_tally :
    ∃ plan, Plan.ofClauses friendsSchema [] tallyClauses { items := tallyItems } = .ok plan ∧
      plan.select.groupBy.map Relational.Expr.render = ["n.label"] ∧
      ∃ parts, parts.map Prod.fst = tallyItems ∧ plan.projection = parts.flatMap Prod.snd ∧
        GroupsBy Query.Expr.CallsAggregate parts plan.select.groupBy := by
  have hkeys : (Plan.ofClauses friendsSchema [] tallyClauses { items := tallyItems }).toOption.map
      (fun plan => plan.select.groupBy.map Relational.Expr.render) = some ["n.label"] := by
    decide +kernel
  obtain ⟨plan, hplan, hkeys⟩ := Option.map_eq_some_iff.mp hkeys
  have hplan := Except.eq_ok_of_toOption hplan
  obtain ⟨s, parts, -, hitems, -, hcolumns, -, hgroups⟩ := groupsBy_of_ofClauses hplan
  refine ⟨plan, hplan, hkeys, parts, hitems, hcolumns, hgroups fun item hitem hcalls => ?_⟩
  rcases List.mem_pair.mp hitem with rfl | rfl
  · exact absurd hcalls (Query.Expr.not_callsAggregate_property "n" "label")
  · exact Query.Expr.aggregates_iff.mp (by decide +kernel)

/-- **A call inside of a list goes unnoticed**: a projection with no other call is not grouped, and in
one that is grouped the list becomes a key. -/
theorem groupBy_of_listed_call :
    (Query.Expr.list [tallyCall]).CallsAggregate ∧
      ¬ (Query.Expr.property (.var "n") "label").CallsAggregate ∧
      (∃ plan, Plan.ofClauses friendsSchema [] tallyClauses
          { items := [⟨.property (.var "n") "label", none⟩, ⟨.list [tallyCall], none⟩] } = .ok plan ∧
        plan.select.render = "SELECT n.label, ARRAY[COUNT(n.id)] AS expr1 FROM nodes n;") ∧
      ∃ plan, Plan.ofClauses friendsSchema [] tallyClauses
          { items := [⟨.property (.var "n") "label", none⟩, ⟨tallyCall, none⟩,
            ⟨.list [tallyCall], none⟩] } = .ok plan ∧
        plan.select.groupBy.map Relational.Expr.render = ["n.label", "ARRAY[COUNT(n.id)]"] := by
  have htexts : (Plan.ofClauses friendsSchema [] tallyClauses
        { items := [⟨.property (.var "n") "label", none⟩,
          ⟨.list [tallyCall], none⟩] }).toOption.map (fun plan => plan.select.render) =
        some "SELECT n.label, ARRAY[COUNT(n.id)] AS expr1 FROM nodes n;" ∧
      (Plan.ofClauses friendsSchema [] tallyClauses
        { items := [⟨.property (.var "n") "label", none⟩, ⟨tallyCall, none⟩,
          ⟨.list [tallyCall], none⟩] }).toOption.map
          (fun plan => plan.select.groupBy.map Relational.Expr.render) =
        some ["n.label", "ARRAY[COUNT(n.id)]"] := by decide +kernel
  have hcall : tallyCall.AggregateCall := ⟨"count", rfl, by decide +kernel⟩
  obtain ⟨plan, hplan, htext⟩ := Option.map_eq_some_iff.mp htexts.1
  obtain ⟨plan', hplan', hkeys⟩ := Option.map_eq_some_iff.mp htexts.2
  exact ⟨⟨tallyCall, hcall, .part List.mem_cons_self .self⟩,
    Query.Expr.not_callsAggregate_property "n" "label",
    ⟨plan, Except.eq_ok_of_toOption hplan, htext⟩, plan', Except.eq_ok_of_toOption hplan', hkeys⟩

end Plan

/-! ## Constants -/

namespace Query.Expr

open Relational (Literal)

/-- The literal that an expression is. -/
def literal? : Query.Expr → Option Literal
  | .null => some .null
  | .boolean b => some (.boolean b)
  | .integer n => some (.integer n)
  | .number x => some (.number x)
  | .text t => some (.text t)
  | _ => none

/-- A literal, or a minus sign before a number that has none. -/
def isConstant : Query.Expr → Bool
  | .negate e => e.literal?.any Literal.isUnsigned
  | e => e.literal?.any Literal.isConstant

/-- A constant calls nothing. -/
theorem not_callsOpenly_of_isConstant {e : Query.Expr} (h : e.isConstant = true) :
    ¬ e.CallsOpenly := by
  rw [← aggregates_iff]
  cases e with
  | negate d =>
    cases d with
    | integer n => exact Bool.false_ne_true
    | number x => exact Bool.false_ne_true
    | _ => cases h
  | call f distinct args => cases h
  | callStar f => cases h
  | property d key => cases h
  | binary op l r => cases h
  | compare op l r => cases h
  | nullTest negated d => cases h
  | not d => cases h
  | _ => exact Bool.false_ne_true

end Query.Expr

namespace Scope

open Relational (NameLike ReadsAsConstant)

variable {s : Scope} {c : ResultColumn} {part : Part}

/-- Names are compiled to columns and rows. -/
theorem literal?_of_lookupName {x : String} {r : Resolved} (h : s.lookupName x = .ok r) :
    r.expr.literal? = none ∧ r.expr.isConstant = false := by
  rcases lookupName_eq_ok h with ⟨n, table, columns, labels, -, -, rfl⟩ | ⟨e, -, rfl⟩ |
    ⟨p, -, c, -, rfl⟩
  · exact ⟨rfl, rfl⟩
  · exact ⟨rfl, rfl⟩
  · exact ⟨rfl, rfl⟩

theorem literal?_of_lookupProperty {x key : String} {r : Resolved}
    (h : s.lookupProperty x key = .ok r) :
    r.expr.literal? = none ∧ r.expr.isConstant = false := by
  rcases lookupProperty_eq_ok h with ⟨table, columns, c, -, -, rfl⟩ | ⟨p, -, c, -, rfl⟩
  · exact ⟨rfl, rfl⟩
  · exact ⟨rfl, rfl⟩

theorem carries_literal? : Carries s
    (fun e a => a.literal? = e.literal? ∧ a.isConstant = e.isConstant) (fun _ _ => True)
    (fun _ _ _ => True) where
  name hr := literal?_of_lookupName hr
  property hr := literal?_of_lookupProperty hr
  constant hl := by cases hl <;> exact ⟨rfl, rfl⟩
  list _ := ⟨rfl, rfl⟩
  not _ := ⟨rfl, rfl⟩
  negate _ ha := ⟨rfl, by rw [Relational.Expr.isConstant, Query.Expr.isConstant, ha.1]⟩
  binary _ _ := ⟨rfl, rfl⟩
  nullTest _ := ⟨rfl, rfl⟩
  inList _ _ _ := ⟨rfl, rfl⟩
  equalsAny _ _ _ := ⟨rfl, rfl⟩
  compare {op _ _ _ _ _ _} _ _ _ _ _ _ _ _ := by cases op <;> exact ⟨rfl, rfl⟩
  call _ := ⟨rfl, rfl⟩
  callStar := ⟨rfl, rfl⟩
  nil := trivial
  cons _ _ := trivial
  nearNil := trivial
  nearCons _ _ _ := trivial

/-- Compiling makes literals of literals, constants of constants, and neither of anything else. -/
theorem literal?_of_compile {e : Query.Expr} {a : Relational.Expr} (h : s.compile e = .ok a) :
    a.literal? = e.literal? ∧ a.isConstant = e.isConstant :=
  carries_literal?.compile e h

theorem Outputs.isConstant_eq {index : Nat} {item : ReturnItem} (h : Outputs s index item c) :
    c.expr.isConstant = item.expr.isConstant := by
  cases h with
  | named hitem hc =>
    rw [hitem]
    cases hc with
    | stored => rfl
    | whole => rfl
    | member => rfl
  | property hitem hr => rw [hitem]; exact (literal?_of_lookupProperty hr).2
  | aggregate _ _ _ hexpr => exact (literal?_of_compile hexpr).2
  | call _ _ hexpr => exact (literal?_of_compile hexpr).2
  | other _ _ _ hexpr => exact (literal?_of_compile hexpr).2

theorem Gives.exists_outputs (h : s.Gives part) (hc : c ∈ part.2) :
    ∃ index d, Outputs s index part.1 d ∧ c.expr = d.expr := by
  obtain ⟨index, wanted, taken, hwanted, hcolumns⟩ := h
  rw [hcolumns] at hc
  obtain ⟨d, hd, taken, rfl⟩ := exists_of_mem_freshColumns hc
  exact ⟨index, d, outputs_of_itemColumns hwanted d hd, rfl⟩

/-- The columns of a part are constants when its item is one. -/
theorem Gives.isConstant_eq (h : s.Gives part) (hc : c ∈ part.2) :
    c.expr.isConstant = part.1.expr.isConstant := by
  obtain ⟨index, d, hd, hexpr⟩ := h.exists_outputs hc
  rw [hexpr]
  exact hd.isConstant_eq

/-- A constant item gives a column. -/
theorem Gives.exists_column (h : s.Gives part) (hconstant : part.1.expr.isConstant = true) :
    ∃ c, c ∈ part.2 := by
  obtain ⟨index, wanted, taken, hwanted, hcolumns⟩ := h
  have hvar : ∀ x, part.1.expr ≠ .var x := by
    intro x hx
    rw [hx] at hconstant
    cases hconstant
  obtain ⟨d, rfl, -⟩ := compile_of_itemColumns hvar hwanted
  rw [hcolumns]
  exact ⟨_, List.mem_cons_self⟩

/-- What a scope hands out refers to its names. -/
theorem resolves_of_names {P : String → Prop} (h : ∀ x ∈ s.names, P x) :
    s.Resolves fun x _ => P x where
  stored := by
    intro x table columns hstored c _
    rcases stored?_cases hstored with ⟨n, labels, hn, -⟩ | ⟨-, e, he, -⟩
    · obtain ⟨hmem, rfl⟩ := mem_of_node? hn
      exact h _ (mem_names.mpr (.inl ⟨n, hmem, rfl⟩))
    · obtain ⟨hmem, rfl⟩ := mem_of_edge? he
      exact h _ (mem_names.mpr (.inr ⟨e, hmem, rfl⟩))
  node := by
    intro x _ _ _ n hn _
    obtain ⟨hmem, rfl⟩ := mem_of_node? hn
    exact h _ (mem_names.mpr (.inl ⟨n, hmem, rfl⟩))
  edge := by
    intro x e he
    obtain ⟨hmem, rfl⟩ := mem_of_edge? he
    have hname := h _ (mem_names.mpr (.inr ⟨e, hmem, rfl⟩))
    exact ⟨hname, hname, hname⟩
  derived := by
    intro p hp c _
    obtain ⟨n, hmem, hn, -⟩ := exists_node_of_mem_derived hp
    exact hn ▸ h _ (mem_names.mpr (.inl ⟨n, hmem, rfl⟩))

theorem Gives.all (h : s.Gives part) (hnames : ∀ x ∈ s.names, NameLike x)
    (hitem : part.1.expr.Named NameLike) (hc : c ∈ part.2) :
    c.expr.All (fun x _ => NameLike x) Wordy := by
  obtain ⟨index, d, hd, hexpr⟩ := h.exists_outputs hc
  rw [hexpr]
  exact hd.all (resolves_of_names hnames) (fun f hf => wordy_functionName hf.wordy) hitem

end Scope

namespace Plan

open Relational (NameLike ReadsAsConstant)

variable {schema : Schema} {relations : List (String × Relation)} {ms : List Matching}
  {p : Projection} {plan : Plan}

/-- Names without a variable are names, too. -/
theorem nameLike_numbered {kind : String} (hkind : kind ∈ ["n", "e"]) (k : Nat) :
    NameLike ("_" ++ kind ++ Numeral.natural k) where
  wordy := by
    have hwordy : Wordy kind := by
      rcases List.mem_pair.mp hkind with rfl | rfl <;> decide
    exact wordy_append (wordy_append (by decide) hwordy) (wordy_natural k)
  first := by
    rw [String.append_assoc, String.toList_append]
    rfl

/-- The names of a plan are names when the variables of its patterns are. -/
theorem nameLike_of_ofClauses
    (hvariables : ∀ m ∈ ms, ∀ q ∈ m.patterns, ∀ x, some x ∈ q.variables → NameLike x)
    (h : Plan.ofClauses schema relations ms p = .ok plan) {x : String}
    (hx : (∃ n ∈ plan.nodes, n.name = x) ∨ ∃ e ∈ plan.edges, e.name = x) : NameLike x := by
  obtain ⟨a, ha, rfl⟩ := exists_place_of_mem_names h hx
  rcases place_cases ha with ⟨m, hm, q, hq, ha⟩ | ⟨kind, hkind, k, ha⟩
  · exact hvariables m hm q hq a.2 ha
  · exact ha ▸ nameLike_numbered hkind k

/-- **A key is a constant just when a constant stands among the items of a projection with an
aggregate.** -/
theorem exists_constant_key_iff
    (hvariables : ∀ m ∈ ms, ∀ q ∈ m.patterns, ∀ x, some x ∈ q.variables → NameLike x)
    (hnamed : ∀ item ∈ p.items, item.expr.Named NameLike)
    (h : Plan.ofClauses schema relations ms p = .ok plan) :
    (∃ e ∈ plan.select.groupBy, ReadsAsConstant e.render) ↔
      (∃ item ∈ p.items, item.expr.CallsOpenly) ∧
        ∃ item ∈ p.items, item.expr.isConstant = true := by
  obtain ⟨s, parts, -, hnodes, hedges, hitems, hgives, -, hgroups⟩ := exists_parts h
  have hnames : ∀ x ∈ s.names, NameLike x := by
    intro x hx
    rw [Scope.mem_names, ← hnodes, ← hedges] at hx
    exact nameLike_of_ofClauses hvariables h hx
  have hmem : ∀ part ∈ parts, part.1 ∈ p.items := fun part hpart =>
    hitems ▸ List.mem_map_of_mem hpart
  have hpart : ∀ item ∈ p.items, ∃ part ∈ parts, part.1 = item := fun item hitem =>
    List.mem_map.mp (hitems ▸ hitem)
  constructor
  · rintro ⟨e, he, hconstant⟩
    obtain ⟨⟨part, hpart, hopen⟩, part', hpart', -, c, hc, rfl⟩ := hgroups.entries e he
    have hall := (hgives part' hpart').all hnames (hnamed _ (hmem part' hpart')) hc
    rw [Relational.Expr.readsAsConstant_render hall,
      (hgives part' hpart').isConstant_eq hc] at hconstant
    exact ⟨⟨part.1, hmem part hpart, hopen⟩, part'.1, hmem part' hpart', hconstant⟩
  · rintro ⟨⟨item, hitem, hopen⟩, item', hitem', hconstant⟩
    obtain ⟨part, hpart₁, rfl⟩ := hpart item hitem
    obtain ⟨part', hpart₂, rfl⟩ := hpart item' hitem'
    obtain ⟨c, hc⟩ := (hgives part' hpart₂).exists_column hconstant
    have hkey := hgroups.columns ⟨part, hpart₁, hopen⟩ part' hpart₂
      (Query.Expr.not_callsOpenly_of_isConstant hconstant) c hc
    refine ⟨c.expr, hkey, Relational.Expr.readsAsConstant_of_isConstant ?_⟩
    rw [(hgives part' hpart₂).isConstant_eq hc, hconstant]

/-- The items `n.label, toUpper(n.label), count(n)`. -/
def upperItems : List ReturnItem :=
  [⟨.property (.var "n") "label", none⟩,
    ⟨.call "toUpper" false [.property (.var "n") "label"], none⟩, ⟨tallyCall, none⟩]

theorem exists_constant_key_iff_upper :
    ∃ plan, Plan.ofClauses friendsSchema [] tallyClauses { items := upperItems } = .ok plan ∧
      plan.select.groupBy.map Relational.Expr.render = ["n.label", "UPPER(n.label)"] ∧
      ∀ e ∈ plan.select.groupBy, ¬ ReadsAsConstant e.render := by
  have hkeys : (Plan.ofClauses friendsSchema [] tallyClauses { items := upperItems }).toOption.map
      (fun plan => plan.select.groupBy.map Relational.Expr.render) =
        some ["n.label", "UPPER(n.label)"] := by decide +kernel
  obtain ⟨plan, hplan, hkeys⟩ := Option.map_eq_some_iff.mp hkeys
  have hplan := Except.eq_ok_of_toOption hplan
  have hvariables : ∀ m ∈ tallyClauses, ∀ q ∈ m.patterns, ∀ x, some x ∈ q.variables →
      NameLike x := by
    intro m hm q hq x hx
    obtain rfl := List.mem_singleton.mp hm
    obtain rfl := List.mem_singleton.mp hq
    obtain rfl := Option.some.inj (List.mem_singleton.mp hx)
    decide
  obtain ⟨hn, hlabel, hupper, hcount⟩ :
      NameLike "n" ∧ NameLike "label" ∧ NameLike "toUpper" ∧ NameLike "count" := by decide
  have hnamed : ∀ item ∈ upperItems, item.expr.Named NameLike := by
    intro item hitem
    simp only [upperItems, List.mem_cons, List.not_mem_nil, or_false] at hitem
    rcases hitem with rfl | rfl | rfl
    · exact ⟨hn, hlabel⟩
    · exact ⟨hupper, ⟨hn, hlabel⟩, trivial⟩
    · exact ⟨hcount, hn, trivial⟩
  refine ⟨plan, hplan, hkeys, fun e he hconstant => ?_⟩
  obtain ⟨-, item, hitem, hitems⟩ :=
    (exists_constant_key_iff hvariables hnamed hplan).mp ⟨e, he, hconstant⟩
  have hnone : ∀ item ∈ upperItems, item.expr.isConstant = false := by decide
  rw [hnone item hitem] at hitems
  cases hitems

/-- **A literal among the items becomes a key**, which is read as the place of an output column or is
not allowed there. -/
theorem constant_key_of_literal :
    ∃ plan, Plan.ofClauses friendsSchema [] tallyClauses
        { items := [⟨.property (.var "n") "label", none⟩, ⟨.integer 3, none⟩, ⟨tallyCall, none⟩] } =
          .ok plan ∧
      plan.select.render =
        "SELECT n.label, 3 AS expr1, COUNT(n.id) AS count FROM nodes n GROUP BY n.label, 3;" ∧
      ∃ e ∈ plan.select.groupBy, ReadsAsConstant e.render := by
  have htext : (Plan.ofClauses friendsSchema [] tallyClauses
      { items := [⟨.property (.var "n") "label", none⟩, ⟨.integer 3, none⟩,
        ⟨tallyCall, none⟩] }).toOption.map
        (fun plan => (plan.select.render, plan.select.groupBy.map Relational.Expr.render)) =
      some ("SELECT n.label, 3 AS expr1, COUNT(n.id) AS count FROM nodes n GROUP BY n.label, 3;",
        ["n.label", "3"]) := by decide +kernel
  obtain ⟨plan, hplan, htext⟩ := Option.map_eq_some_iff.mp htext
  obtain ⟨hrender, hkeys⟩ := Prod.mk.inj htext
  have hthree : "3" ∈ plan.select.groupBy.map Relational.Expr.render := by
    rw [hkeys]
    decide
  obtain ⟨e, he, hthree⟩ := List.mem_map.mp hthree
  refine ⟨plan, Except.eq_ok_of_toOption hplan, hrender, e, he, ?_⟩
  rw [hthree]
  exact .inl (.inl ⟨by decide, by decide⟩)

end Plan

end GraphSql
