import GraphSql.Plan
import GraphSql.Proofs.Scope.Lookup

/-!
# Scopes that resolve names alike

Two scopes can resolve the same names by different columns.  When the columns of one scope can be
replaced by expressions so that both agree on some names, then they agree, with the same replacement, on
every expression over these names, on every output column and on every sort key.  What is known about a
value apart from its expression is the same in both scopes: the types that literals take, and all other
parts of an output column, but for the origins, which only correspond.

How the two runs are compared is a parameter (`Except.Lifting`), and so is which origins correspond.  The
induction over expressions is done once for all of them (`Scope.Parallel.compile`).  In `Scope.Mirrors` the
second run succeeds when the first does, and the origins are equal.
-/

namespace GraphSql

variable {cs ds : List ResultColumn}

namespace Query.Expr

mutual

/-- The variables that an expression mentions. -/
def mentioned : Expr → List String
  | .var x => [x]
  | .property e _ => mentioned e
  | .list es => mentionedAll es
  | .map entries => mentionedEntries entries
  | .not e => mentioned e
  | .negate e => mentioned e
  | .binary _ l r => mentioned l ++ mentioned r
  | .compare _ l r => mentioned l ++ mentioned r
  | .nullTest _ e => mentioned e
  | .call _ _ args => mentionedAll args
  | _ => []

@[inherit_doc mentioned]
def mentionedAll : List Expr → List String
  | [] => []
  | e :: es => mentioned e ++ mentionedAll es

@[inherit_doc mentioned]
def mentionedEntries : List (String × Expr) → List String
  | [] => []
  | (_, e) :: entries => mentioned e ++ mentionedEntries entries

end

end Query.Expr

/-! ## Replacing columns -/

namespace Relational.Expr

section

variable (f : String → String → Expr)

mutual

/-- An expression with other expressions in place of its columns. -/
def mapColumns : Expr → Expr
  | .column x c => f x c
  | .output n => .output n
  | .star => .star
  | .literal l => .literal l
  | .row es => .row (mapColumnsAll es)
  | .array es => .array (mapColumnsAll es)
  | .not e => .not (mapColumns e)
  | .negate e => .negate (mapColumns e)
  | .binary op l r => .binary op (mapColumns l) (mapColumns r)
  | .nullTest negated e => .nullTest negated (mapColumns e)
  | .compare op l r => .compare op (mapColumns l) (mapColumns r)
  | .inList e es => .inList (mapColumns e) (mapColumnsAll es)
  | .equalsAny e a => .equalsAny (mapColumns e) (mapColumns a)
  | .like affix e part => .like affix (mapColumns e) (mapColumns part)
  | .call g distinct es => .call g distinct (mapColumnsAll es)
  | .ifElse c a b => .ifElse (mapColumns c) (mapColumns a) (mapColumns b)

@[inherit_doc mapColumns]
def mapColumnsAll : List Expr → List Expr
  | [] => []
  | e :: es => mapColumns e :: mapColumnsAll es

end

end

/-! Columns that are replaced by themselves change nothing. -/

mutual

theorem mapColumns_column : ∀ e : Expr, e.mapColumns .column = e
  | .column x c => rfl
  | .output n => rfl
  | .star => rfl
  | .literal l => rfl
  | .row es => by rw [mapColumns, mapColumnsAll_column es]
  | .array es => by rw [mapColumns, mapColumnsAll_column es]
  | .not e => by rw [mapColumns, mapColumns_column e]
  | .negate e => by rw [mapColumns, mapColumns_column e]
  | .binary op l r => by rw [mapColumns, mapColumns_column l, mapColumns_column r]
  | .nullTest negated e => by rw [mapColumns, mapColumns_column e]
  | .compare op l r => by rw [mapColumns, mapColumns_column l, mapColumns_column r]
  | .inList e es => by rw [mapColumns, mapColumns_column e, mapColumnsAll_column es]
  | .equalsAny e a => by rw [mapColumns, mapColumns_column e, mapColumns_column a]
  | .like affix e part => by rw [mapColumns, mapColumns_column e, mapColumns_column part]
  | .call g distinct es => by rw [mapColumns, mapColumnsAll_column es]
  | .ifElse c a b => by
    rw [mapColumns, mapColumns_column c, mapColumns_column a, mapColumns_column b]

theorem mapColumnsAll_column : ∀ es : List Expr, mapColumnsAll .column es = es
  | [] => rfl
  | e :: es => by rw [mapColumnsAll, mapColumns_column e, mapColumnsAll_column es]

end

end Relational.Expr

section

variable (f : String → String → Relational.Expr)

def Resolved.mapColumns (r : Resolved) : Resolved := { r with expr := r.expr.mapColumns f }

def ResultColumn.mapColumns (c : ResultColumn) : ResultColumn :=
  { c with expr := c.expr.mapColumns f }

def Relational.OrderItem.mapColumns (i : Relational.OrderItem) : Relational.OrderItem :=
  { i with expr := i.expr.mapColumns f }

def Scope.Projected.mapColumns (p : Scope.Projected) : Scope.Projected where
  columns := p.columns.map (ResultColumn.mapColumns f)
  keys := p.keys.map (Relational.Expr.mapColumns f)

end

theorem Resolved.mapColumns_column (r : Resolved) : r.mapColumns .column = r := by
  rw [mapColumns, r.expr.mapColumns_column]

theorem ResultColumn.map_mapColumns_column (cs : List ResultColumn) :
    cs.map (ResultColumn.mapColumns .column) = cs := by
  have hid : ResultColumn.mapColumns .column = id := by
    funext c
    rw [mapColumns, c.expr.mapColumns_column]
    rfl
  rw [hid, List.map_id]

/-! ## Two runs side by side -/

section

variable (f : String → String → Relational.Expr) (O : Origin → Origin → Prop)

/-- The first operand is the second one with its columns replaced and with an origin that corresponds. -/
def Resolved.Parallel (r r' : Resolved) : Prop :=
  ∃ o, r = { r' with expr := r'.expr.mapColumns f, origin := o } ∧ Option.Rel O o r'.origin

/-- The same for output columns. -/
def ResultColumn.Parallel (c d : ResultColumn) : Prop :=
  ∃ o, c = { d with expr := d.expr.mapColumns f, origin := o } ∧ Option.Rel O o d.origin

structure Scope.Projected.Parallel (p q : Scope.Projected) : Prop where
  columns : List.Forall₂ (ResultColumn.Parallel f O) p.columns q.columns
  keys : q.keys.map (Relational.Expr.mapColumns f) = p.keys

/-- Two scopes in which runs that are compared by `M` resolve the given names in parallel.  What has no
relational form is refused in both. -/
structure Scope.Parallel (M : Except.Lifting Error) (names : String → Prop) (s t : Scope) : Prop where
  refused : ∀ {α β : Type} {R : α → β → Prop} {e : Error}, e.kind = .inexpressible →
    M.rel R (.error e) (.error e)
  name : ∀ x, names x → M.rel (Resolved.Parallel f O) (s.lookupName x) (t.lookupName x)
  property : ∀ x, names x → ∀ key,
    M.rel (Resolved.Parallel f O) (s.lookupProperty x key) (t.lookupProperty x key)
  columns : ∀ x, names x → ∀ scope, M.rel (List.Forall₂ (ResultColumn.Parallel f O))
    (s.variableColumns x scope) (t.variableColumns x scope)

end

/-! If corresponding origins are equal, only the columns differ. -/

section

variable {f : String → String → Relational.Expr}

theorem Resolved.parallel_iff {r r' : Resolved} : r.Parallel f Eq r' ↔ r'.mapColumns f = r := by
  constructor
  · rintro ⟨o, rfl, ho⟩
    rw [ho.eq]
    rfl
  · rintro rfl
    exact ⟨r'.origin, rfl, .refl .refl _⟩

theorem ResultColumn.parallel_iff {c d : ResultColumn} : c.Parallel f Eq d ↔ d.mapColumns f = c := by
  constructor
  · rintro ⟨o, rfl, ho⟩
    rw [ho.eq]
    rfl
  · rintro rfl
    exact ⟨d.origin, rfl, .refl .refl _⟩

theorem ResultColumn.forall₂_parallel_iff :
    List.Forall₂ (ResultColumn.Parallel f Eq) cs ds ↔ ds.map (ResultColumn.mapColumns f) = cs := by
  rw [← List.forall₂_eq_eq_eq, List.forall₂_map_left_iff]
  exact ⟨fun h => h.flip.imp fun _ _ => parallel_iff.mp,
    fun h => h.flip.imp fun _ _ => parallel_iff.mpr⟩

end

namespace Scope

open Relational (Expr)

variable {f : String → String → Expr} {O : Origin → Origin → Prop} {s t : Scope} {e : Query.Expr}

theorem mapColumns_comparison (op : Query.Comparison) (l r : Expr) :
    (comparison op l r).mapColumns f = comparison op (l.mapColumns f) (r.mapColumns f) := by
  cases op <;> rfl

theorem mentioned_subset_of_mem {es : List Query.Expr} (he : e ∈ es) :
    e.mentioned ⊆ Query.Expr.mentionedAll es := by
  induction es with
  | nil => cases he
  | cons d es ih =>
    rcases List.mem_cons.mp he with rfl | he
    · exact List.subset_append_left _ _
    · exact List.Subset.trans (ih he) (List.subset_append_right _ _)

/-- What is known about the value of an aggregate does not depend on the columns. -/
theorem aggregate_parallel (a : Aggregate) {r r' : Option Resolved}
    (h : Option.Rel (Resolved.Parallel f O) r r') : aggregateType a r = aggregateType a r' ∧
      Option.Rel O (aggregateOrigin a r) (aggregateOrigin a r') := by
  cases h with
  | none => cases a <;> exact ⟨rfl, .none⟩
  | some hr =>
    obtain ⟨o, rfl, ho⟩ := hr
    cases a
    case collect => exact ⟨rfl, ho⟩
    case min => exact ⟨rfl, ho⟩
    case max => exact ⟨rfl, ho⟩
    all_goals exact ⟨rfl, .none⟩

/-- What does not look at expressions and origins is seen alike of columns that correspond. -/
theorem map_eq_of_parallel {α : Type} {k : ResultColumn → α}
    (hk : ∀ (c : ResultColumn) expr origin, k { c with expr, origin } = k c)
    (h : List.Forall₂ (ResultColumn.Parallel f O) cs ds) : cs.map k = ds.map k := by
  induction h with
  | nil => rfl
  | cons hcd _ ih =>
    obtain ⟨o, rfl, -⟩ := hcd
    rw [List.map_cons, List.map_cons, ih, hk]

theorem freshColumns_parallel (h : List.Forall₂ (ResultColumn.Parallel f O) cs ds) : ∀ taken,
      List.Forall₂ (ResultColumn.Parallel f O) (freshColumns taken cs) (freshColumns taken ds) := by
  induction h with
  | nil => exact fun _ => .nil
  | cons hcd _ ih =>
    intro taken
    obtain ⟨o, rfl, ho⟩ := hcd
    exact .cons ⟨o, rfl, ho⟩ (ih _)

theorem rel_wholeOutput? (h : List.Forall₂ (ResultColumn.Parallel f O) cs ds) (e : Query.Expr) :
    Option.Rel (ResultColumn.Parallel f O) (wholeOutput? cs e) (wholeOutput? ds e) := by
  cases e with
  | var x =>
    refine h.rel_find? ?_
    rintro _ d ⟨o, rfl, -⟩
    rfl
  | _ => exact .none

namespace Parallel

variable {M : Except.Lifting Error} {names : String → Prop}

/-! ### Expressions -/

theorem operand (h : Parallel f O M names s t) (he : ∀ x ∈ e.mentioned, names x)
    {x y : Except Error Expr} (hxy : M.Mirrors (Expr.mapColumns f) x y) :
    M.rel (Resolved.Parallel f O) (s.operand e x) (t.operand e y) := by
  have hplain : M.rel (Resolved.Parallel f O) (x.map fun expr => { expr })
      (y.map fun expr => { expr }) := by
    refine M.map hxy ?_
    rintro _ b rfl
    exact ⟨none, rfl, .none⟩
  cases e with
  | var x => exact h.name x (he x List.mem_cons_self)
  | property e key =>
    cases e with
    | var x => exact h.property x (he x List.mem_cons_self) key
    | _ => exact hplain
  | _ => exact hplain

/-- What an expression is next to something of a known type. -/
theorem typed (type : Option ColumnType) {x y : Except Error Expr}
    (hxy : M.Mirrors (Expr.mapColumns f) x y) :
    M.Mirrors (Expr.mapColumns f) (Scope.typed e type x) (Scope.typed e type y) := by
  unfold Scope.typed
  split
  · exact M.ok rfl
  · exact hxy

/-- The expression alone of what a name is resolved to. -/
theorem expr {x y : Except Error Resolved} (h : M.rel (Resolved.Parallel f O) x y) :
    M.Mirrors (Expr.mapColumns f) (x.map Resolved.expr) (y.map Resolved.expr) := by
  refine M.map h ?_
  rintro _ r ⟨o, rfl, -⟩
  rfl

mutual

/-- **Scopes that resolve names in parallel compile expressions in parallel.** -/
theorem compile (h : Parallel f O M names s t) : ∀ e : Query.Expr, (∀ x ∈ e.mentioned, names x) →
    M.Mirrors (Expr.mapColumns f) (s.compile e) (t.compile e)
  | .var x, he => by
    rw [Scope.compile, Scope.compile]
    exact expr (h.name x (he x List.mem_cons_self))
  | .property e key, he => by
    cases e with
    | var x =>
      rw [Scope.compile, Scope.compile]
      exact expr (h.property x (he x List.mem_cons_self) key)
    | _ => exact h.refused rfl
  | .null, _ => M.ok rfl
  | .boolean b, _ => M.ok rfl
  | .integer n, _ => M.ok rfl
  | .number x, _ => M.ok rfl
  | .text x, _ => M.ok rfl
  | .list es, he => by
    rw [Scope.compile, Scope.compile]
    refine M.bind (compileAll h es he) ?_
    rintro _ bs rfl
    exact M.ok rfl
  | .map _, _ => h.refused rfl
  | .not e, he => by
    rw [Scope.compile, Scope.compile]
    refine M.bind (compile h e he) ?_
    rintro _ b rfl
    exact M.ok rfl
  | .negate e, he => by
    rw [Scope.compile, Scope.compile]
    refine M.bind (compile h e he) ?_
    rintro _ b rfl
    exact M.ok rfl
  | .binary op l r, he => by
    obtain ⟨hl, hr⟩ := List.forall_mem_append.mp he
    rw [Scope.compile, Scope.compile]
    refine M.bind (compile h l hl) ?_
    rintro _ a rfl
    refine M.bind (compile h r hr) ?_
    rintro _ b rfl
    exact M.ok rfl
  | .nullTest negated e, he => by
    rw [Scope.compile, Scope.compile]
    refine M.bind (h.operand (e := e) he (compile h e he)) ?_
    rintro _ r ⟨o, rfl, -⟩
    exact M.ok rfl
  | .compare op l r, he => by
    obtain ⟨hel, her⟩ := List.forall_mem_append.mp he
    have hl : M.rel (Resolved.Parallel f O) (s.operand l (s.compile l)) (t.operand l (t.compile l)) :=
      h.operand hel (compile h l hel)
    have hr : M.rel (Resolved.Parallel f O) (s.operand r (s.compile r)) (t.operand r (t.compile r)) :=
      h.operand her (compile h r her)
    rcases compile_compare_cases op l r with ⟨es, -, hes, heq⟩ | ⟨-, -, heq⟩ | ⟨-, heq⟩
    · rw [heq, heq]
      refine M.bind hl ?_
      rintro _ left ⟨o, rfl, -⟩
      cases r with
      | list _ =>
        cases hes
        refine M.bind (compileTyped h left.type es her) ?_
        rintro _ bs rfl
        exact M.ok rfl
      | _ => cases hes
    · rw [heq, heq]
      refine M.bind hl ?_
      rintro _ left ⟨o, rfl, -⟩
      refine M.bind hr ?_
      rintro _ right ⟨o, rfl, -⟩
      exact M.ok rfl
    · rw [heq, heq]
      refine M.bind hl ?_
      rintro _ left ⟨o, rfl, -⟩
      refine M.bind hr ?_
      rintro _ right ⟨o, rfl, -⟩
      -- literals take the type of the other side, which is the same in both scopes
      refine M.bind (typed right.type (M.ok rfl)) ?_
      rintro _ a rfl
      refine M.bind (typed left.type (M.ok rfl)) ?_
      rintro _ b rfl
      exact M.ok (mapColumns_comparison op a b)
  | .call g distinct args, he => by
    rw [Scope.compile, Scope.compile]
    refine M.bind (compileAll h args he) ?_
    rintro _ bs rfl
    exact M.ok rfl
  | .callStar g, _ => M.ok rfl

theorem compileAll (h : Parallel f O M names s t) : ∀ es : List Query.Expr,
    (∀ x ∈ Query.Expr.mentionedAll es, names x) →
      M.Mirrors (Expr.mapColumnsAll f) (s.compileAll es) (t.compileAll es)
  | [], _ => M.ok rfl
  | e :: es, hes => by
    obtain ⟨he, hes⟩ := List.forall_mem_append.mp hes
    rw [Scope.compileAll, Scope.compileAll]
    refine M.bind (compile h e he) ?_
    rintro _ b rfl
    refine M.bind (compileAll h es hes) ?_
    rintro _ bs rfl
    exact M.ok rfl

theorem compileTyped (h : Parallel f O M names s t) (type : Option ColumnType) :
    ∀ es : List Query.Expr, (∀ x ∈ Query.Expr.mentionedAll es, names x) →
      M.Mirrors (Expr.mapColumnsAll f) (s.compileTyped type es) (t.compileTyped type es)
  | [], _ => M.ok rfl
  | e :: es, hes => by
    obtain ⟨he, hes⟩ := List.forall_mem_append.mp hes
    rw [Scope.compileTyped, Scope.compileTyped]
    refine M.bind (typed type (compile h e he)) ?_
    rintro _ b rfl
    refine M.bind (compileTyped h type es hes) ?_
    rintro _ bs rfl
    exact M.ok rfl

end

theorem propertyCondition (h : Parallel f O M names s t) {x : String} (hx : names x)
    {entry : String × Query.Expr} (hentry : ∀ y ∈ entry.2.mentioned, names y) :
    M.Mirrors (Expr.mapColumns f) (s.propertyCondition x entry)
      (t.propertyCondition x entry) := by
  refine M.bind (h.property x hx entry.1) ?_
  rintro _ column ⟨o, rfl, -⟩
  refine M.bind (typed column.type (h.compile entry.2 hentry)) ?_
  rintro _ value rfl
  exact M.ok rfl

/-! ### Output columns -/

theorem plainColumn (h : Parallel f O M names s t) (he : ∀ x ∈ e.mentioned, names x) (name : String)
    (asName : Option String) : M.rel (ResultColumn.Parallel f O)
      (s.plainColumn e name asName) (t.plainColumn e name asName) := by
  refine M.bind (h.compile e he) ?_
  rintro _ b rfl
  exact M.ok ⟨none, rfl, .none⟩

theorem aggregateColumn (h : Parallel f O M names s t) (a : Aggregate) {call : Query.Expr}
    (hcall : ∀ x ∈ call.mentioned, names x) {args : List Query.Expr}
    (hargs : ∀ e ∈ args, ∀ x ∈ e.mentioned, names x) (asName : Option String) :
    M.rel (ResultColumn.Parallel f O) (s.aggregateColumn a call args asName)
      (t.aggregateColumn a call args asName) := by
  have hresolve : M.rel (Option.Rel (Resolved.Parallel f O)) (args.head?.mapM s.resolve)
      (args.head?.mapM t.resolve) := by
    refine M.option_mapM fun e he => ?_
    have hmem := hargs e (List.mem_of_mem_head? he)
    exact h.operand hmem (h.compile e hmem)
  refine M.bind hresolve fun r r' hr => M.bind (h.compile call hcall) ?_
  rintro _ b rfl
  obtain ⟨htype, horigin⟩ := aggregate_parallel a hr
  rw [htype]
  exact M.ok ⟨_, rfl, horigin⟩

theorem callColumn (h : Parallel f O M names s t) (function : String) {call : Query.Expr}
    (hcall : ∀ x ∈ call.mentioned, names x) {args : List Query.Expr}
    (hargs : ∀ e ∈ args, ∀ x ∈ e.mentioned, names x) (asName : Option String) :
    M.rel (ResultColumn.Parallel f O) (s.callColumn function call args asName)
      (t.callColumn function call args asName) := by
  unfold Scope.callColumn
  split
  · exact h.aggregateColumn _ hcall hargs asName
  · exact h.plainColumn hcall _ asName

theorem itemColumns (h : Parallel f O M names s t) (index : Nat) {item : Query.ReturnItem}
    (hitem : ∀ x ∈ item.expr.mentioned, names x) : M.rel (List.Forall₂ (ResultColumn.Parallel f O))
      (s.itemColumns index item) (t.itemColumns index item) := by
  have hone : ∀ {x y : Except Error ResultColumn}, M.rel (ResultColumn.Parallel f O) x y →
      M.rel (List.Forall₂ (ResultColumn.Parallel f O)) (do return [← x]) (do return [← y]) :=
    fun hxy => M.bind hxy fun _ _ hcd => M.ok (.cons hcd .nil)
  unfold Scope.itemColumns
  split
  · rename_i x hx
    rw [hx] at hitem
    exact h.columns x (hitem x List.mem_cons_self) _
  · rename_i x key hx
    rw [hx] at hitem
    refine M.bind (h.property x (hitem x List.mem_cons_self) key) ?_
    rintro _ r ⟨o, rfl, ho⟩
    exact M.ok (.cons ⟨o, rfl, ho⟩ .nil)
  · rename_i g distinct args hx
    rw [hx] at hitem
    have hargs : ∀ e ∈ args, ∀ x ∈ e.mentioned, names x := fun e he x hx =>
      hitem x (mentioned_subset_of_mem he hx)
    exact hone (h.callColumn g hitem hargs _)
  · rename_i g hx
    rw [hx] at hitem
    exact hone (h.callColumn g hitem (by simp) _)
  · exact hone (h.plainColumn hitem _ _)

theorem addItem (h : Parallel f O M names s t) {p q : Projected} (hpq : p.Parallel f O q)
    {item : Query.ReturnItem × Nat} (hitem : ∀ x ∈ item.1.expr.mentioned, names x) :
    M.rel (Projected.Parallel f O) (s.addItem p item) (t.addItem q item) := by
  refine M.bind (h.itemColumns item.2 hitem) fun cs ds hcs => ?_
  have hnames : p.columns.map ResultColumn.name = q.columns.map ResultColumn.name :=
    map_eq_of_parallel (fun _ _ _ => rfl) hpq.columns
  have hfresh := freshColumns_parallel hcs (q.columns.map ResultColumn.name)
  have hexprs : ((freshColumns (q.columns.map ResultColumn.name) ds).map ResultColumn.expr).map
      (Expr.mapColumns f) =
        (freshColumns (q.columns.map ResultColumn.name) cs).map ResultColumn.expr := by
    rw [← List.forall₂_eq_eq_eq, List.map_map, List.forall₂_map_left_iff,
      List.forall₂_map_right_iff]
    refine hfresh.flip.imp ?_
    rintro d _ ⟨o, rfl, -⟩
    rfl
  rw [hnames]
  refine M.ok ⟨List.rel_append hpq.columns hfresh, ?_⟩
  dsimp only
  rw [apply_ite (List.map (Expr.mapColumns f)), List.map_append, hpq.keys, hexprs]

/-- **Scopes that resolve names in parallel have output columns that correspond.** -/
theorem project (h : Parallel f O M names s t) {items : List Query.ReturnItem}
    (hitems : ∀ i ∈ items, ∀ x ∈ i.expr.mentioned, names x) :
    M.rel (Projected.Parallel f O) (s.project items) (t.project items) := by
  refine M.foldlM_self (fun item hitem p q hpq => ?_) ⟨.nil, rfl⟩
  exact h.addItem hpq (hitems item.1 (List.fst_mem_of_mem_zipIdx hitem))

/-- A sort key over the names, or one that is the name of a whole output column. -/
theorem sortKey (h : Parallel f O M names s t)
    (hcs : List.Forall₂ (ResultColumn.Parallel f O) cs ds) {key : Query.SortKey}
    (hkey : (∀ x ∈ key.expr.mentioned, names x) ∨ (wholeOutput? ds key.expr).isSome = true) :
    M.Mirrors (Relational.OrderItem.mapColumns f) (s.sortKey cs key) (t.sortKey ds key) := by
  have hwhole := rel_wholeOutput? hcs key.expr
  unfold Scope.sortKey
  generalize wholeOutput? cs key.expr = a at hwhole ⊢
  generalize wholeOutput? ds key.expr = b at hwhole hkey ⊢
  cases hwhole with
  | some hcd =>
    obtain ⟨o, rfl, -⟩ := hcd
    exact M.ok rfl
  | none =>
    refine M.bind (h.compile key.expr (hkey.resolve_right (by simp))) ?_
    rintro _ expr rfl
    exact M.ok rfl

end Parallel

/-! ## The second run follows the first -/

/-- The scope `s` resolves the given names as `t` does when the columns of `t` are replaced. -/
structure Mirrors (f : String → String → Expr) (names : List String) (s t : Scope) :
    Prop where
  name : ∀ x ∈ names, Except.Mirrors (Resolved.mapColumns f) (s.lookupName x) (t.lookupName x)
  property : ∀ x ∈ names, ∀ key,
    Except.Mirrors (Resolved.mapColumns f) (s.lookupProperty x key) (t.lookupProperty x key)
  columns : ∀ x ∈ names, ∀ scope, Except.Mirrors (List.map (ResultColumn.mapColumns f))
    (s.variableColumns x scope) (t.variableColumns x scope)

theorem Mirrors.parallel {names : List String} (h : Mirrors f names s t) :
    Parallel f Eq (.follows fun _ => True) (· ∈ names) s t where
  refused _ := .error trivial
  name x hx := (h.name x hx).follows fun _ => Resolved.parallel_iff.mpr rfl
  property x hx key := (h.property x hx key).follows fun _ => Resolved.parallel_iff.mpr rfl
  columns x hx scope := (h.columns x hx scope).follows fun _ =>
    ResultColumn.forall₂_parallel_iff.mpr rfl

theorem Mirrors.compile {names : List String} (h : Mirrors f names s t) (e : Query.Expr)
    (he : e.mentioned ⊆ names) :
    Except.Mirrors (Expr.mapColumns f) (s.compile e) (t.compile e) :=
  (h.parallel.compile e he).mirrors fun _ _ => id

theorem Mirrors.project {names : List String} (h : Mirrors f names s t)
    {items : List Query.ReturnItem} (hitems : ∀ i ∈ items, i.expr.mentioned ⊆ names) :
    Except.Mirrors (Projected.mapColumns f) (s.project items) (t.project items) := by
  refine (h.parallel.project hitems).mirrors fun p q hpq => ?_
  rw [Projected.mapColumns, hpq.keys, ResultColumn.forall₂_parallel_iff.mp hpq.columns]

theorem wholeOutput?_mapColumns (columns : List ResultColumn) (e : Query.Expr) :
    wholeOutput? (columns.map (ResultColumn.mapColumns f)) e =
      (wholeOutput? columns e).map (ResultColumn.mapColumns f) := by
  cases e with
  | var x =>
    rw [wholeOutput?, wholeOutput?, Relation.whole?, Relation.whole?, List.find?_map]
    rfl
  | _ => rfl

theorem Mirrors.sortKey {names : List String} (h : Mirrors f names s t)
    (columns : List ResultColumn) {key : Query.SortKey} (hkey : key.expr.mentioned ⊆ names ∨
      (wholeOutput? columns key.expr).isSome = true) :
    Except.Mirrors (Relational.OrderItem.mapColumns f)
      (s.sortKey (columns.map (ResultColumn.mapColumns f)) key) (t.sortKey columns key) :=
  (h.parallel.sortKey (ResultColumn.forall₂_parallel_iff.mpr rfl) hkey).mirrors fun _ _ => id

end Scope

end GraphSql
