import GraphSql.Proofs.Compiler.NameColumns
import GraphSql.Proofs.Letters
import GraphSql.Proofs.Scope.ColumnTypes

/-!
# Relationships that are passed on

A projection has a plan when its bare names have columns and everything that it computes is compiled
(`Plan.exists_selects_iff`).  A relationship that is passed on to a second stage still has the
columns of its table, so it can be returned as a whole, and its properties can be read.  But the second
stage looks for an id where the relationship is used as a value, and tables of relationships need not
have one.  So a query that only mentions the relationship can be put behind a projection that passes it
on just when it does not use the relationship as a value, or there is an id
(`Compiler.exists_prepareStaged_iff_of_edge`).
-/

namespace GraphSql

variable {item : Query.ReturnItem}

/-! ## What a projection reads -/

namespace Query

def Operand.variable : Operand → String
  | .name x => x
  | .property x _ => x

namespace Projection

/-- The expression is a name that the projection gives to a single value. -/
def Names (p : Projection) (e : Expr) : Prop :=
  ∃ x, e = .var x ∧ ∃ item ∈ p.items, item.asName = some x ∧ ∀ y, item.expr ≠ .var y

/-- The expressions of a projection that are compiled: items but for bare names, sort keys but for
names that the projection gives, and bounds. -/
inductive Computes (p : Projection) : Expr → Prop
  | item {i : ReturnItem} : i ∈ p.items → (∀ x, i.expr ≠ .var x) → Computes p i.expr
  | sortKey {key : SortKey} : key ∈ p.orderBy → ¬ p.Names key.expr → Computes p key.expr
  | skip {e : Expr} : e ∈ p.skip → Computes p e
  | limit {e : Expr} : e ∈ p.limit → Computes p e

/-- The operand stands in an expression that is compiled. -/
def Reads (p : Projection) (o : Operand) : Prop := ∃ e, p.Computes e ∧ o ∈ e.operands

/-- The variable stands in the projection, by itself or as part of an operand. -/
def Mentions (p : Projection) (x : String) : Prop :=
  (∃ item ∈ p.items, item.expr = .var x) ∨ ∃ o, p.Reads o ∧ o.variable = x

end Projection

end Query

/-! ## Which projections have a plan -/

namespace Scope

variable {s : Scope} {x : String}

/-- The scope has columns for an item. -/
def Shows (s : Scope) (item : Query.ReturnItem) : Prop := ∃ index cs, s.itemColumns index item = .ok cs

/-- The columns of a bare variable are its properties. -/
def Keyed (s : Scope) (x : String) : Prop :=
  ∀ scope c, s.VariableColumn x scope c → c.key ≠ none

theorem shows_iff_of_not_var (hitem : ∀ x, item.expr ≠ .var x) :
    s.Shows item ↔ s.CanCompile item.expr :=
  ⟨fun ⟨_, h⟩ => (exists_itemColumns_iff hitem).mp h, fun h => ⟨0, (exists_itemColumns_iff hitem).mpr h⟩⟩

/-- The place of an item does not matter for its having columns. -/
theorem Shows.exists_itemColumns (h : s.Shows item) (index : Nat) :
    ∃ cs, s.itemColumns index item = .ok cs := by
  by_cases hitem : ∃ x, item.expr = .var x
  · obtain ⟨x, hx⟩ := hitem
    obtain ⟨index', cs, hcs⟩ := h
    rw [itemColumns, hx] at hcs
    refine ⟨cs, ?_⟩
    rw [itemColumns, hx]
    exact hcs
  · have hnone : ∀ x, item.expr ≠ .var x := fun x hx => hitem ⟨x, hx⟩
    exact (exists_itemColumns_iff hnone).mpr ((shows_iff_of_not_var hnone).mp h)

theorem exists_foldlM_addItem_iff : ∀ {items : List (Query.ReturnItem × Nat)} {p : Projected},
    (∃ p', items.foldlM s.addItem p = .ok p') ↔
      ∀ item ∈ items, ∃ cs, s.itemColumns item.2 item.1 = .ok cs
  | [], p => ⟨fun _ _ h => absurd h List.not_mem_nil, fun _ => ⟨p, rfl⟩⟩
  | item :: items, p => by
    rw [List.forall_mem_cons, List.foldlM_cons]
    constructor
    · rintro ⟨p', hp'⟩
      obtain ⟨p₁, hstep, hrest⟩ := Except.bind_eq_ok.mp hp'
      obtain ⟨wanted, hwanted, -⟩ := Except.bind_eq_ok.mp hstep
      exact ⟨⟨wanted, hwanted⟩, exists_foldlM_addItem_iff.mp ⟨p', hrest⟩⟩
    · rintro ⟨⟨wanted, hwanted⟩, hitems⟩
      obtain ⟨p', hp'⟩ := exists_foldlM_addItem_iff.mpr hitems
      exact ⟨p', Except.bind_eq_ok.mpr ⟨_, Except.bind_eq_ok.mpr ⟨wanted, hwanted, rfl⟩, hp'⟩⟩

theorem exists_project_iff {items : List Query.ReturnItem} :
    (∃ p, s.project items = .ok p) ↔ ∀ item ∈ items, s.Shows item := by
  rw [project, exists_foldlM_addItem_iff]
  constructor
  · intro h item hitem
    obtain ⟨⟨_, index⟩, hmem, rfl⟩ := List.mem_map.mp (List.zipIdx_map_fst 0 items ▸ hitem)
    exact ⟨index, h _ hmem⟩
  · intro h item hitem
    exact (h item.1 (List.fst_mem_of_mem_zipIdx hitem)).exists_itemColumns item.2

/-- An item with a name that is not a bare variable becomes the whole value of this name. -/
theorem Outputs.whole_of_asName {index : Nat} {c : ResultColumn} (h : Outputs s index item c)
    (hitem : ∀ y, item.expr ≠ .var y) (hname : item.asName = some x) :
    c.scopeName = some x ∧ c.key = none := by
  cases h with
  | named hvar => exact absurd hvar (hitem _)
  | property =>
    rw [hname]
    exact ⟨rfl, rfl⟩
  | aggregate => exact ⟨hname, rfl⟩
  | call => exact ⟨hname, rfl⟩
  | other => exact ⟨hname, rfl⟩

/-- **The whole values of a projection are what it gives names to**, when bare variables are returned
as properties. -/
theorem wholeOutput?_isSome_iff {p : Query.Projection} {projected : Projected}
    (hp : s.project p.items = .ok projected)
    (hkeyed : ∀ item ∈ p.items, ∀ y, item.expr = .var y → s.Keyed y) {e : Query.Expr} :
    (wholeOutput? projected.columns e).isSome = true ↔ p.Names e := by
  constructor
  · intro h
    obtain ⟨c, hc⟩ := Option.isSome_iff_exists.mp h
    cases e with
    | var x =>
      obtain ⟨hmem, hscope, hkey⟩ := Relation.whole?_eq_some hc
      obtain ⟨item, hitem, index, d, taken, hd, rfl⟩ := (exists_outputs_of_project hp).1 c hmem
      have hvar : ∀ y, item.expr ≠ .var y :=
        fun y hy => hkeyed item hitem y hy _ d (hd.variableColumn hy) hkey
      rcases hd.asName_or_var hscope hkey with ha | he
      · exact ⟨x, rfl, item, hitem, ha, hvar⟩
      · exact absurd he (hvar x)
    | _ => cases hc
  · rintro ⟨x, rfl, item, hitem, hname, hvar⟩
    obtain ⟨parts, hparts, hgives, hcolumns, -⟩ := exists_parts_of_project hp
    obtain ⟨part, hpart, rfl⟩ := List.mem_map.mp (hparts ▸ hitem)
    obtain ⟨index, wanted, taken, hwanted, hfresh⟩ := hgives part hpart
    obtain ⟨d, rfl, -⟩ := compile_of_itemColumns hvar hwanted
    obtain ⟨hscope, hkey⟩ :=
      (outputs_of_itemColumns hwanted d List.mem_cons_self).whole_of_asName hvar hname
    rw [wholeOutput?, Relation.whole?, List.find?_isSome]
    refine ⟨{ d with name := Relational.freshName d.name taken }, ?_, ?_⟩
    · rw [hcolumns]
      exact List.mem_flatMap.mpr ⟨part, hpart, hfresh ▸ List.mem_cons_self⟩
    · rw [hscope, hkey]
      simp

theorem exists_sortKey_iff {columns : List ResultColumn} {key : Query.SortKey} :
    (∃ entry, s.sortKey columns key = .ok entry) ↔
      (wholeOutput? columns key.expr).isSome = true ∨ s.CanCompile key.expr := by
  unfold sortKey
  cases wholeOutput? columns key.expr with
  | some c => exact ⟨fun _ => .inl rfl, fun _ => ⟨_, rfl⟩⟩
  | none =>
    constructor
    · rintro ⟨entry, hentry⟩
      obtain ⟨a, ha, -⟩ := Except.bind_eq_ok.mp hentry
      exact .inr ⟨a, ha⟩
    · rintro (h | ⟨a, ha⟩)
      · cases h
      · exact ⟨_, Except.bind_eq_ok.mpr ⟨a, ha, rfl⟩⟩

end Scope

/-- **A projection has a plan when its bare names have columns and everything that it computes is
compiled.** -/
theorem Plan.exists_selects_iff {s : Scope} {conditions : List Query.Expr} {p : Query.Projection}
    (hkeyed : ∀ item ∈ p.items, ∀ x, item.expr = .var x → s.Keyed x) :
    (∃ projected compiled select, s.Selects conditions p projected compiled select) ↔
      (∀ e ∈ conditions, s.CanCompile e) ∧
        (∀ item ∈ p.items, ∀ x, item.expr = .var x → s.Shows item) ∧
        ∀ e, p.Computes e → s.CanCompile e := by
  constructor
  · rintro ⟨projected, compiled, select, h⟩
    have hshows := Scope.exists_project_iff.mp ⟨projected, h.project_eq⟩
    refine ⟨Scope.exists_compileAll_iff.mp ⟨compiled, h.compileAll_eq⟩,
      fun item hitem _ _ => hshows item hitem, fun e he => ?_⟩
    cases he with
    | item hitem hvar => exact (Scope.shows_iff_of_not_var hvar).mp (hshows _ hitem)
    | sortKey hkey hnames =>
      rcases Scope.exists_sortKey_iff.mp (Except.exists_mapM_iff.mp ⟨_, h.orderBy_eq⟩ _ hkey) with
        hwhole | hcompiles
      · exact absurd ((Scope.wholeOutput?_isSome_iff h.project_eq hkeyed).mp hwhole) hnames
      · exact hcompiles
    | skip he => exact Except.exists_option_mapM_iff.mp ⟨_, h.offset_eq⟩ e he
    | limit he => exact Except.exists_option_mapM_iff.mp ⟨_, h.limit_eq⟩ e he
  · rintro ⟨hconditions, hshows, hcomputes⟩
    obtain ⟨compiled, hcompiled⟩ := Scope.exists_compileAll_iff.mpr hconditions
    obtain ⟨projected, hprojected⟩ : ∃ projected, s.project p.items = .ok projected := by
      refine Scope.exists_project_iff.mpr fun item hitem => ?_
      by_cases hvar : ∃ x, item.expr = .var x
      · obtain ⟨x, hx⟩ := hvar
        exact hshows item hitem x hx
      · have hvar : ∀ x, item.expr ≠ .var x := fun x hx => hvar ⟨x, hx⟩
        exact (Scope.shows_iff_of_not_var hvar).mpr (hcomputes _ (.item hitem hvar))
    obtain ⟨orderBy, horder⟩ : ∃ orderBy,
        p.orderBy.mapM (s.sortKey projected.columns) = .ok orderBy := by
      refine Except.exists_mapM_iff.mpr fun key hkey => Scope.exists_sortKey_iff.mpr ?_
      by_cases hnames : p.Names key.expr
      · exact .inl ((Scope.wholeOutput?_isSome_iff hprojected hkeyed).mpr hnames)
      · exact .inr (hcomputes _ (.sortKey hkey hnames))
    obtain ⟨offset, hoffset⟩ := Except.exists_option_mapM_iff.mpr fun e he => hcomputes e (.skip he)
    obtain ⟨limit, hlimit⟩ := Except.exists_option_mapM_iff.mpr fun e he => hcomputes e (.limit he)
    exact ⟨projected, compiled, ⟨_, _, _, _, _, orderBy, offset, limit⟩, hprojected, hcompiled,
      horder, hoffset, hlimit, rfl, rfl, rfl, rfl, rfl⟩

/-! ## What a second stage finds of a variable that was passed on -/

/-- Whether a later stage finds the operand when its variable is passed on with the given columns: a
variable as a value is read from its id, and a property from the column of its key. -/
def Query.Operand.PassedWith (columns : List Column) : Query.Operand → Prop
  | .name _ => (Column.find? columns Schema.nodeId).isSome = true
  | .property _ key => key ≠ ""

namespace Scope

variable {s : Scope} {name x table : String} {columns : List Column} {r : Relation}

theorem keyed_of_stored? (h : s.stored? x = some (table, columns)) : s.Keyed x := by
  intro scope c hc hkey
  cases hc with
  | stored => cases hkey
  | whole _ _ hnone => cases hnone.symm.trans h
  | member _ _ hnone => cases hnone.symm.trans h

theorem keyed_reading (h : r.whole? x = none) : (reading name r).Keyed x := by
  intro scope c hc hkey
  rcases variableColumn_reading_cases hc with ⟨d, hd, -⟩ | ⟨d, hd, rfl⟩
  · cases h.symm.trans hd
  · obtain ⟨-, -, k, hk⟩ := Relation.mem_properties hd
    cases hk.symm.trans hkey

/-- A variable with columns is passed on with a copy of each of them. -/
theorem exists_copies_of_stored? (h : s.stored? x = some (table, columns)) :
    ∃ projected, s.project (Query.Projection.ofNames [x]).items = .ok projected ∧
      List.Forall₂ (Copies x table) columns (columnsOf x projected.columns) := by
  have hcolumns : s.itemColumns 0 { expr := .var x } = .ok (storedColumns x x table columns) := by
    show s.variableColumns x x = _
    rw [variableColumns, h]
  have hcopies := forall₂_copies x table columns []
  refine ⟨_, Except.bind_eq_ok.mpr ⟨_, Except.bind_eq_ok.mpr ⟨_, hcolumns, rfl⟩, rfl⟩, ?_⟩
  show List.Forall₂ _ _ (columnsOf x ([] ++ freshColumns [] _))
  rw [List.nil_append, columnsOf_copies hcopies, if_pos rfl]
  exact hcopies

section Copies

variable (h : List.Forall₂ (Copies x table) columns (columnsOf x r.columns))

include h

theorem whole?_of_copies : r.whole? x = none := by
  rw [whole?_eq]
  exact (keys_of_copies h).2

/-- A copy is found by its key, unless the key is empty. -/
theorem isSome_property?_iff {key : String} :
    (r.property? x key).isSome = true ↔ key ≠ "" ∧ (Column.find? columns key).isSome = true := by
  have hkey : ∀ d : Column, Text.sameName d.name key = true → (d.name ≠ "" ↔ key ≠ "") := by
    intro d hd
    have hlower : Text.lower d.name = Text.lower key := by simpa [Text.sameName] using hd
    rw [Ne, Ne, ← Text.lower_eq_empty, hlower, Text.lower_eq_empty]
  rw [property?_eq, Column.find?, List.find?_isSome, List.find?_isSome]
  generalize columnsOf x r.columns = cs at h
  -- the copies stand in the order of the columns, and each one has the name of its column as its key
  induction h with
  | nil => simp
  | @cons d c ds cs hc _ ih =>
    obtain ⟨n, rfl⟩ := hc
    simp only [List.exists_mem_cons_iff, ih, Bool.and_eq_true, bne_iff_ne]
    constructor
    · rintro (⟨hne, hd⟩ | ⟨hne, hds⟩)
      · exact ⟨(hkey d hd).mp hne, .inl hd⟩
      · exact ⟨hne, .inr hds⟩
    · rintro ⟨hne, hd | hds⟩
      · exact .inl ⟨(hkey d hd).mpr hne, hd⟩
      · exact .inr ⟨hne, hds⟩

theorem isSome_key?_iff :
    (r.key? x).isSome = true ↔ (Column.find? columns Schema.nodeId).isSome = true := by
  have hid : Schema.nodeId ≠ "" := by decide
  have hproperty : (r.property? x Schema.nodeId).isSome = true ↔ Schema.nodeId ≠ "" ∧
      (Column.find? columns Schema.nodeId).isSome = true := isSome_property?_iff h
  rw [Relation.key?, whole?_of_copies h]
  cases hfound : r.property? x Schema.nodeId with
  | none =>
    rw [hfound] at hproperty
    exact ⟨fun hnone => absurd hnone Bool.false_ne_true, fun hcolumn => hproperty.mpr ⟨hid, hcolumn⟩⟩
  | some c =>
    rw [hfound] at hproperty
    exact ⟨fun _ => (hproperty.mp rfl).2, fun _ => rfl⟩

/-- **An operand that was found is found again just when it is passed on.** -/
theorem exists_lookup_reading_iff (hstored : s.stored? x = some (table, columns)) {o : Query.Operand}
    (ho : o.variable = x) (hfound : ∃ resolved, s.lookup o = .ok resolved) :
    (∃ resolved, (reading name r).lookup o = .ok resolved) ↔ o.PassedWith columns := by
  have hoperand : (∃ resolved, (reading name r).lookup o = .ok resolved) ↔
      (r.operand? o).isSome = true := by
    simp only [lookup_reading_eq_ok, Option.isSome_iff_exists]
    exact ⟨fun ⟨_, c, hc, _⟩ => ⟨c, hc⟩, fun ⟨c, hc⟩ => ⟨_, c, hc, rfl⟩⟩
  rw [hoperand]
  cases o with
  | name y =>
    obtain rfl : y = x := ho
    exact isSome_key?_iff h
  | property y key =>
    obtain rfl : y = x := ho
    obtain ⟨resolved, hresolved⟩ := hfound
    have hcolumn : (Column.find? columns key).isSome = true := by
      rw [lookup, lookupProperty, hstored] at hresolved
      dsimp only at hresolved
      split at hresolved
      · rename_i c hc
        exact Option.isSome_of_eq_some hc
      · cases hresolved
    exact (isSome_property?_iff h).trans ⟨fun hkey => hkey.1, fun hne => ⟨hne, hcolumn⟩⟩

/-- A variable with columns is still returned. -/
theorem shows_reading (hne : columns ≠ []) (hitem : item.expr = .var x) :
    (reading name r).Shows item := by
  have hproperties : r.properties x ≠ [] := by
    rw [properties_eq, (keys_of_copies h).1]
    intro hnil
    rw [hnil, List.forall₂_nil_right_iff] at h
    exact hne h
  have hderived : ∃ cs, derivedColumns x (item.asName.getD x) name r = some cs := by
    rw [derivedColumns, whole?_of_copies h]
    dsimp only
    split
    · rename_i hnil
      exact absurd hnil hproperties
    · exact ⟨_, rfl⟩
  obtain ⟨cs, hcs⟩ := hderived
  refine ⟨0, cs, ?_⟩
  rw [itemColumns, hitem]
  exact variableColumns_reading name hcs

end Copies

/-- **A projection of a variable that was passed on.**  When it has a plan in the first stage, it has
one in the second stage just when all operands that it reads are passed on. -/
theorem exists_selects_reading_iff {p : Query.Projection}
    (hstored : s.stored? x = some (table, columns)) (hne : columns ≠ [])
    (h : List.Forall₂ (Copies x table) columns (columnsOf x r.columns))
    (honly : ∀ y, p.Mentions y → y = x) {conditions : List Query.Expr}
    (hplan : ∃ projected compiled select, s.Selects conditions p projected compiled select) :
    (∃ projected compiled select, (reading name r).Selects [] p projected compiled select) ↔
      ∀ o, p.Reads o → o.PassedWith columns := by
  have hvariable : ∀ item ∈ p.items, ∀ y, item.expr = .var y → y = x := fun item hitem y hy =>
    honly y (.inl ⟨item, hitem, hy⟩)
  obtain ⟨-, -, hcompiles⟩ := (Plan.exists_selects_iff fun item hitem y hy =>
    hvariable item hitem y hy ▸ keyed_of_stored? hstored).mp hplan
  -- what is computed was compiled before, so only its operands can be missing
  have hagain : ∀ e, p.Computes e →
      ((reading name r).CanCompile e ↔ ∀ o ∈ e.operands, o.PassedWith columns) := by
    intro e he
    obtain ⟨hexpressible, hfound⟩ := canCompile_iff.mp (hcompiles e he)
    rw [canCompile_iff, and_iff_right hexpressible]
    refine forall₂_congr fun o ho => exists_lookup_reading_iff h hstored ?_ (hfound o ho)
    exact honly _ (.inr ⟨o, ⟨e, he, ho⟩, rfl⟩)
  rw [Plan.exists_selects_iff fun item hitem y hy =>
    hvariable item hitem y hy ▸ keyed_reading (whole?_of_copies h)]
  constructor
  · rintro ⟨-, -, hsecond⟩ o ⟨e, he, ho⟩
    exact (hagain e he).mp (hsecond e he) o ho
  · intro hpassed
    refine ⟨fun _ hnone => absurd hnone List.not_mem_nil, fun item hitem y hy => ?_, fun e he => ?_⟩
    · cases hvariable item hitem y hy
      exact shows_reading h hne hy
    · exact (hagain e he).mpr fun o ho => hpassed o ⟨e, he, ho⟩

end Scope

/-! ## Queries that pass a relationship on -/

open Query (Matching Projection)

theorem Plan.exists_ofClauses_reading_iff {schema : Schema} {name : String} {r : Relation}
    {condition : Option Query.Expr} {p : Projection} :
    (∃ plan, ofClauses schema [(name, r)] [.reading name condition] p = .ok plan) ↔
      ∃ projected compiled select,
        (Scope.reading name r).Selects condition.toList p projected compiled select := by
  constructor
  · rintro ⟨plan, hplan⟩
    obtain ⟨projected, compiled, -, hselect⟩ := selects_reading hplan
    exact ⟨projected, compiled, plan.select, hselect⟩
  · rintro ⟨projected, compiled, select, hselect⟩
    refine ⟨_, ofClauses_eq_ok.mpr ⟨_, projected, compiled, select,
      addPatterns_relation schema name r, ?_, rfl⟩⟩
    cases condition with
    | none => exact hselect
    | some e => exact hselect

/-- The first stage succeeds when the patterns and conditions do, and passes the columns on. -/
theorem Plan.exists_copies {schema : Schema} {ms : List Matching} {s : Scope}
    {compiled : List Relational.Expr} {x table : String} {columns : List Column}
    (hs : Scope.addPatterns schema {} (ms.flatMap Matching.patterns) = .ok s)
    (hconditions : s.compileAll (ms.filterMap Matching.condition) = .ok compiled)
    (hstored : s.stored? x = some (table, columns)) :
    ∃ first, ofClauses schema [] ms (.ofNames [x]) = .ok first ∧
      List.Forall₂ (Scope.Copies x table) columns (Scope.columnsOf x first.projection) := by
  obtain ⟨projected, hprojected, hcopies⟩ := Scope.exists_copies_of_stored? hstored
  exact ⟨_, ofClauses_eq_ok.mpr ⟨s, projected, compiled, ⟨_, _, _, _, _, [], none, none⟩, hs,
    ⟨hprojected, hconditions, rfl, rfl, rfl, rfl, rfl, rfl, rfl, rfl⟩, rfl⟩, hcopies⟩

namespace Compiler

variable {c : Compiler} {k : Nat} {ms : List Matching} {p : Projection}

/-- A query that passes variables on is prepared when its second stage has a plan. -/
theorem exists_prepareStaged_iff {names : List String} {first : Plan} (hms : ms ≠ [])
    (hfirst : Plan.ofClauses c.schema [] ms (.ofNames names) = .ok first) :
    (∃ prepared k', (c.prepareStaged (ms.map .matching ++
        [.passing { toProjection := .ofNames names }, .returning p])).run.run k =
          (.ok prepared, k')) ↔
      ∃ second, Plan.ofClauses c.schema [(first.firstName, first.relation (c.tempAt (k + 1)))]
        [.reading first.firstName none] p = .ok second := by
  constructor
  · rintro ⟨prepared, k', h⟩
    rw [prepareStaged, Query.staged?_append hms] at h
    obtain ⟨first', second, hfirst', hsecond, -⟩ :=
      (preparesTo_of_prepareStages (Query.staged?_append hms) h).stages (Query.staged?_append hms)
    cases hfirst.symm.trans hfirst'
    rw [finalProjection_ofNames] at hsecond
    exact ⟨second, hsecond⟩
  · rintro ⟨second, hsecond⟩
    exact ⟨_, _, run_prepareStaged hms hfirst hsecond⟩

/-- **A relationship is passed on but for its value.**  When a query in one stage has a plan and its
projection only mentions one of its relationships, then the query that passes the relationship on first
is prepared just when the table of the relationship has an id or the relationship is not used as a
value, and no property has an empty key. -/
theorem exists_prepareStaged_iff_of_edge {d : Schema.Declaration}
    (hschema : Schema.build d = .ok c.schema) {plan : Plan}
    (hplan : Plan.ofQuery c.schema [] (ms.map .matching ++ [.returning p]) = .ok (some plan))
    {e : BoundEdge} (he : e ∈ plan.edges) (honly : ∀ x, p.Mentions x → x = e.name) (k : Nat) :
    (∃ prepared k', (c.prepareStaged (ms.map .matching ++
        [.passing { toProjection := .ofNames [e.name] }, .returning p])).run.run k =
          (.ok prepared, k')) ↔
      ∀ o, p.Reads o → o.PassedWith e.columns := by
  obtain ⟨hms, hplan⟩ := Plan.ofClauses_of_ofQuery hplan
  obtain ⟨s, projected, compiled, select, hs, hselect, rfl⟩ := Plan.ofClauses_eq_ok.mp hplan
  -- no node has the name of the relationship, so its columns are those of its types
  have htyped := Scope.typed_of_addPatterns (Schema.merged_of_build hschema) hs
  obtain ⟨hnode, hedge⟩ := htyped.introduces.edge?_of_mem he
  have hstored : s.stored? e.name = some (Schema.edgesTable, e.columns) := by
    rw [Scope.stored?, hnode, hedge]
    rfl
  have hne : e.columns ≠ [] :=
    List.ne_nil_of_mem ((htyped.edges e he).2 _ List.mem_cons_self)
  obtain ⟨first, hfirst, hcopies⟩ := Plan.exists_copies hs hselect.compileAll_eq hstored
  rw [exists_prepareStaged_iff hms hfirst, Plan.exists_ofClauses_reading_iff]
  exact Scope.exists_selects_reading_iff hstored hne hcopies honly ⟨_, _, _, hselect⟩

/-- The clause `MATCH (a:Person)-[r]->(b)`. -/
def linksClause : Matching where
  patterns := [⟨{ name := some "a", labels := ["Person"] },
    [⟨{ name := some "r", direction := .outgoing }, { name := some "b" }⟩]⟩]

/-- The projection `r, r.TYPE AS kind, count(r.idl) ORDER BY kind`. -/
def linksProjection : Projection where
  items := [⟨.var "r", none⟩, ⟨.property (.var "r") "TYPE", some "kind"⟩,
    ⟨.call "count" false [.property (.var "r") "idl"], none⟩]
  orderBy := [⟨.var "kind", .ascending⟩]

theorem reads_linksProjection {o : Query.Operand} (h : linksProjection.Reads o) :
    o = .property "r" "TYPE" ∨ o = .property "r" "idl" := by
  obtain ⟨e, he, ho⟩ := h
  cases he with
  | item hitem hvar =>
    simp only [linksProjection, List.mem_cons, List.not_mem_nil, or_false] at hitem
    rcases hitem with rfl | rfl | rfl
    · exact absurd rfl (hvar "r")
    · exact .inl (List.mem_singleton.mp ho)
    · exact .inr (List.mem_singleton.mp ho)
  | sortKey hkey hnames =>
    obtain rfl := List.mem_singleton.mp hkey
    exact absurd ⟨"kind", rfl, _, List.mem_cons_of_mem _ List.mem_cons_self, rfl, nofun⟩ hnames
  | skip he => cases he
  | limit he => cases he

theorem exists_prepareStaged_iff_of_edge_links :
    ∃ plan, Plan.ofQuery peopleCompiler.schema []
        ([linksClause].map .matching ++ [.returning linksProjection]) = .ok (some plan) ∧
      plan.edges.map BoundEdge.name = ["r"] ∧ (∀ x, linksProjection.Mentions x → x = "r") ∧
      ∃ prepared k', (peopleCompiler.prepareStaged ([linksClause].map .matching ++
        [.passing { toProjection := .ofNames ["r"] }, .returning linksProjection])).run.run 0 =
          (.ok prepared, k') := by
  have hfacts : (Plan.ofQuery peopleCompiler.schema [] ([linksClause].map .matching ++
      [.returning linksProjection])).toOption.join.map (fun plan => plan.edges.map BoundEdge.name) =
      some ["r"] := by decide +kernel
  obtain ⟨plan, hplan, hedges⟩ := Option.map_eq_some_iff.mp hfacts
  have hplan := Except.eq_ok_of_toOption (Option.join_eq_some_iff.mp hplan)
  obtain ⟨e, hsingle, hname⟩ := List.map_eq_singleton_iff.mp hedges
  have he : e ∈ plan.edges := hsingle ▸ List.mem_cons_self
  have honly : ∀ x, linksProjection.Mentions x → x = "r" := by
    rintro x (⟨item, hitem, hx⟩ | ⟨o, ho, rfl⟩)
    · simp only [linksProjection, List.mem_cons, List.not_mem_nil, or_false] at hitem
      rcases hitem with rfl | rfl | rfl
      · cases hx
        rfl
      · cases hx
      · cases hx
    · rcases reads_linksProjection ho with rfl | rfl <;> rfl
  refine ⟨plan, hplan, hedges, honly, ?_⟩
  rw [← hname]
  refine (exists_prepareStaged_iff_of_edge build_peopleDeclaration hplan he
    (fun x hx => hname ▸ honly x hx) 0).mpr fun o ho => ?_
  rcases reads_linksProjection ho with rfl | rfl
  · exact (by decide : "TYPE" ≠ "")
  · exact (by decide : "idl" ≠ "")

/-- How many relationships there are. -/
def linksText : String := "MATCH (a:Person)-[r]->(b) RETURN count(r)"

def passedLinksText : String := "MATCH (a:Person)-[r]->(b) WITH r RETURN count(r)"

/-- **Relationships that are passed on cannot be counted.** -/
theorem not_compiled_of_passed_edge :
    (∃ statements k', (peopleCompiler.compile linksText).run.run 0 = (.ok statements, k') ∧
      statements.map Relational.Statement.render =
        ["SELECT COUNT(ROW(r.idl, r.idr, r.type)) AS count FROM person a JOIN edges r ON r.idl = a.id " ++
          "JOIN nodes b ON b.id = r.idr;"]) ∧
      ∀ statements k', (peopleCompiler.compile passedLinksText).run.run 0 ≠ (.ok statements, k') := by
  have hfacts : ((peopleCompiler.compile linksText).run.run 0).1.toOption.map
        (List.map Relational.Statement.render) =
      some ["SELECT COUNT(ROW(r.idl, r.idr, r.type)) AS count FROM person a JOIN edges r " ++
        "ON r.idl = a.id JOIN nodes b ON b.id = r.idr;"] ∧
      ((peopleCompiler.compile passedLinksText).run.run 0).1.toOption.isNone = true := by
    decide +kernel
  obtain ⟨hdirect, hnone⟩ := hfacts
  obtain ⟨statements, hrun, hrender⟩ := Option.map_eq_some_iff.mp hdirect
  obtain ⟨k', hrun⟩ := Compile.exists_run_of_toOption hrun
  refine ⟨⟨statements, k', hrun, hrender⟩, fun statements k' h => ?_⟩
  rw [h] at hnone
  cases hnone

end Compiler

end GraphSql
