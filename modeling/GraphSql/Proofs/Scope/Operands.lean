import GraphSql.Proofs.Scope.GroupKeys

/-!
# The operands of an expression

The names and the properties of names in an expression, from left to right, are its operands.
Compiling looks up each of them on its own.  An expression is compiled just when it has no maps and no
properties of anything but names, and all its operands are found (`Scope.canCompile_iff`).  Then it
refers to what was found for them, in the same order, and calls the same functions
(`Scope.traced_of_compile`).
-/

namespace GraphSql

/-- A name in an expression, by itself or with a property. -/
inductive Query.Operand where
  | name (x : String)
  | property (x key : String)
  deriving DecidableEq

namespace Query.Expr

mutual

/-- The operands of an expression, from left to right. -/
def operands : Expr → List Operand
  | .var x => [.name x]
  | .property (.var x) key => [.property x key]
  | .list es => operandsAll es
  | .not e => operands e
  | .negate e => operands e
  | .binary _ l r => operands l ++ operands r
  | .compare _ l r => operands l ++ operands r
  | .nullTest _ e => operands e
  | .call _ _ args => operandsAll args
  | _ => []

@[inherit_doc operands]
def operandsAll : List Expr → List Operand
  | [] => []
  | e :: es => operands e ++ operandsAll es

end

/-- The operand that an expression consists of. -/
def operand? : Expr → Option Operand
  | .var x => some (.name x)
  | .property (.var x) key => some (.property x key)
  | _ => none

mutual

/-- The functions that an expression calls, from left to right. -/
def functions : Expr → List String
  | .list es => functionsAll es
  | .not e => functions e
  | .negate e => functions e
  | .binary _ l r => functions l ++ functions r
  | .compare _ l r => functions l ++ functions r
  | .nullTest _ e => functions e
  | .call f _ args => f :: functionsAll args
  | .callStar f => [f]
  | _ => []

@[inherit_doc functions]
def functionsAll : List Expr → List String
  | [] => []
  | e :: es => functions e ++ functionsAll es

end

mutual

/-- Whether an expression has no maps and no properties of anything but names. -/
def expressible : Expr → Bool
  | .property (.var _) _ => true
  | .property _ _ => false
  | .list es => expressibleAll es
  | .map _ => false
  | .not e => expressible e
  | .negate e => expressible e
  | .binary _ l r => expressible l && expressible r
  | .compare _ l r => expressible l && expressible r
  | .nullTest _ e => expressible e
  | .call _ _ args => expressibleAll args
  | _ => true

@[inherit_doc expressible]
def expressibleAll : List Expr → Bool
  | [] => true
  | e :: es => expressible e && expressibleAll es

end

mutual

/-- What denotes a value by itself reads nothing and calls nothing. -/
theorem operands_of_value? : ∀ {e : Expr} {v : Value}, e.value? = some v →
    e.operands = [] ∧ e.functions = []
  | .null, _, _ => ⟨rfl, rfl⟩
  | .boolean _, _, _ => ⟨rfl, rfl⟩
  | .integer _, _, _ => ⟨rfl, rfl⟩
  | .number _, _, _ => ⟨rfl, rfl⟩
  | .text _, _, _ => ⟨rfl, rfl⟩
  | .list es, _, h => by
    rw [value?] at h
    obtain ⟨vs, hvs, -⟩ := Option.map_eq_some_iff.mp h
    exact operandsAll_of_values? hvs
  | .negate e, _, h => by
    rw [value?] at h
    obtain ⟨v, hv, -⟩ := Option.bind_eq_some_iff.mp h
    exact operands_of_value? (e := e) hv

theorem operandsAll_of_values? : ∀ {es : List Expr} {vs : List Value}, values? es = some vs →
    operandsAll es = [] ∧ functionsAll es = []
  | [], _, _ => ⟨rfl, rfl⟩
  | e :: es, _, h => by
    rw [values?] at h
    split at h
    · rename_i v vs hv hvs
      obtain ⟨ho, hf⟩ := operands_of_value? hv
      obtain ⟨hos, hfs⟩ := operandsAll_of_values? hvs
      rw [operandsAll, functionsAll, ho, hf, hos, hfs]
      exact ⟨rfl, rfl⟩
    · cases h

end

end Query.Expr

namespace Relational.Expr

mutual

/-- The columns that an expression refers to, from left to right. -/
def references : Expr → List (String × String)
  | .column source name => [(source, name)]
  | .output _ => []
  | .star => []
  | .literal _ => []
  | .row es => referencesAll es
  | .array es => referencesAll es
  | .not e => references e
  | .negate e => references e
  | .binary _ l r => references l ++ references r
  | .nullTest _ e => references e
  | .compare _ l r => references l ++ references r
  | .inList e es => references e ++ referencesAll es
  | .equalsAny e a => references e ++ references a
  | .like _ e part => references e ++ references part
  | .call _ _ es => referencesAll es
  | .ifElse c a b => references c ++ references a ++ references b

@[inherit_doc references]
def referencesAll : List Expr → List (String × String)
  | [] => []
  | e :: es => references e ++ referencesAll es

end

mutual

/-- The functions that an expression calls, from left to right. -/
def functions : Expr → List String
  | .column _ _ => []
  | .output _ => []
  | .star => []
  | .literal _ => []
  | .row es => functionsAll es
  | .array es => functionsAll es
  | .not e => functions e
  | .negate e => functions e
  | .binary _ l r => functions l ++ functions r
  | .nullTest _ e => functions e
  | .compare _ l r => functions l ++ functions r
  | .inList e es => functions e ++ functionsAll es
  | .equalsAny e a => functions e ++ functions a
  | .like _ e part => functions e ++ functions part
  | .call f _ es => f :: functionsAll es
  | .ifElse c a b => functions c ++ functions a ++ functions b

@[inherit_doc functions]
def functionsAll : List Expr → List String
  | [] => []
  | e :: es => functions e ++ functionsAll es

end

end Relational.Expr

namespace Scope

open Relational (Expr)

variable {s : Scope} {e l r : Query.Expr} {es : List Query.Expr} {x : String} {a : Expr}

/-! ## Which expressions are compiled -/

/-- The scope has a relational form for an expression. -/
def CanCompile (s : Scope) (e : Query.Expr) : Prop := ∃ a, s.compile e = .ok a

/-- What the scope knows about an operand. -/
def lookup (s : Scope) : Query.Operand → Except Error Resolved
  | .name x => s.lookupName x
  | .property x key => s.lookupProperty x key

theorem canCompile_var : s.CanCompile (.var x) ↔ ∃ r, s.lookup (.name x) = .ok r := by
  simp only [CanCompile, compile, Except.map_eq_ok, lookup]
  exact ⟨fun ⟨_, r, hr, _⟩ => ⟨r, hr⟩, fun ⟨r, hr⟩ => ⟨_, r, hr, rfl⟩⟩

theorem canCompile_property {key : String} :
    s.CanCompile (.property (.var x) key) ↔ ∃ r, s.lookup (.property x key) = .ok r := by
  simp only [CanCompile, compile, Except.map_eq_ok, lookup]
  exact ⟨fun ⟨_, r, hr, _⟩ => ⟨r, hr⟩, fun ⟨r, hr⟩ => ⟨_, r, hr, rfl⟩⟩

/-- An expression is an operand when it is compiled. -/
theorem canCompile_iff_operand : s.CanCompile e ↔ ∃ r, s.operand e (s.compile e) = .ok r := by
  constructor
  · rintro ⟨a, ha⟩
    have hplain : ∃ r : Resolved, (s.compile e).map (fun expr => { expr }) = .ok r :=
      ⟨{ expr := a }, Except.map_eq_ok.mpr ⟨a, ha, rfl⟩⟩
    cases e with
    | var x =>
      rw [compile] at ha
      obtain ⟨r, hr, -⟩ := Except.map_eq_ok.mp ha
      exact ⟨r, hr⟩
    | property e key =>
      obtain ⟨x, r, rfl, hr, -⟩ := compile_property_eq_ok ha
      exact ⟨r, hr⟩
    | _ => exact hplain
  · rintro ⟨r, hr⟩
    exact ⟨r.expr, compile_of_operand hr⟩

theorem canCompile_not : s.CanCompile (.not e) ↔ s.CanCompile e := by
  simp only [CanCompile, compile, Except.bind_eq_ok]
  exact ⟨fun ⟨_, x, hx, _⟩ => ⟨x, hx⟩, fun ⟨x, hx⟩ => ⟨_, x, hx, rfl⟩⟩

theorem canCompile_negate : s.CanCompile (.negate e) ↔ s.CanCompile e := by
  simp only [CanCompile, compile, Except.bind_eq_ok]
  exact ⟨fun ⟨_, x, hx, _⟩ => ⟨x, hx⟩, fun ⟨x, hx⟩ => ⟨_, x, hx, rfl⟩⟩

theorem canCompile_nullTest {negated : Bool} :
    s.CanCompile (.nullTest negated e) ↔ s.CanCompile e := by
  rw [canCompile_iff_operand (e := e)]
  simp only [CanCompile, compile, Except.bind_eq_ok]
  exact ⟨fun ⟨_, x, hx, _⟩ => ⟨x, hx⟩, fun ⟨x, hx⟩ => ⟨_, x, hx, rfl⟩⟩

theorem canCompile_binary {op : Query.BinaryOp} :
    s.CanCompile (.binary op l r) ↔ s.CanCompile l ∧ s.CanCompile r := by
  simp only [CanCompile, compile, Except.bind_eq_ok]
  exact ⟨fun ⟨_, x, hx, y, hy, _⟩ => ⟨⟨x, hx⟩, y, hy⟩,
    fun ⟨⟨x, hx⟩, y, hy⟩ => ⟨_, x, hx, y, hy, rfl⟩⟩

theorem exists_compileAll_iff : (∃ as, s.compileAll es = .ok as) ↔ ∀ e ∈ es, s.CanCompile e := by
  induction es with
  | nil => exact ⟨fun _ _ he => absurd he List.not_mem_nil, fun _ => ⟨[], rfl⟩⟩
  | cons e es ih =>
    rw [List.forall_mem_cons, ← ih]
    simp only [CanCompile, compileAll, Except.bind_eq_ok]
    exact ⟨fun ⟨_, x, hx, xs, hxs, _⟩ => ⟨⟨x, hx⟩, xs, hxs⟩,
      fun ⟨⟨x, hx⟩, xs, hxs⟩ => ⟨_, x, hx, xs, hxs, rfl⟩⟩

mutual

/-- What denotes a value by itself is compiled in every scope. -/
theorem canCompile_of_value? : ∀ {e : Query.Expr} {v : Value}, e.value? = some v → s.CanCompile e
  | .null, _, _ => ⟨_, rfl⟩
  | .boolean _, _, _ => ⟨_, rfl⟩
  | .integer _, _, _ => ⟨_, rfl⟩
  | .number _, _, _ => ⟨_, rfl⟩
  | .text _, _, _ => ⟨_, rfl⟩
  | .list es, _, h => by
    rw [Query.Expr.value?] at h
    obtain ⟨vs, hvs, -⟩ := Option.map_eq_some_iff.mp h
    obtain ⟨as, has⟩ := exists_compileAll_of_values? hvs
    exact ⟨.array as, by rw [compile, has]; rfl⟩
  | .negate e, _, h => by
    rw [Query.Expr.value?] at h
    obtain ⟨v, hv, -⟩ := Option.bind_eq_some_iff.mp h
    exact canCompile_negate.mpr (canCompile_of_value? (e := e) hv)

theorem exists_compileAll_of_values? : ∀ {es : List Query.Expr} {vs : List Value},
    Query.Expr.values? es = some vs → ∃ as, s.compileAll es = .ok as
  | [], _, _ => ⟨[], rfl⟩
  | e :: es, _, h => by
    rw [Query.Expr.values?] at h
    split at h
    · rename_i v vs hv hvs
      obtain ⟨a, ha⟩ := canCompile_of_value? hv
      obtain ⟨as, has⟩ := exists_compileAll_of_values? hvs
      exact ⟨a :: as, by rw [compileAll, ha, has]; rfl⟩
    · cases h

end

theorem exists_typed_ok (e : Query.Expr) (type : Option ColumnType) (a : Expr) :
    ∃ b, typed e type (.ok a) = .ok b := by
  unfold typed
  split
  · exact ⟨_, rfl⟩
  · exact ⟨a, rfl⟩

/-- The type that literals take does not matter for what is compiled. -/
theorem exists_typed_iff (type : Option ColumnType) :
    (∃ a, typed e type (s.compile e) = .ok a) ↔ s.CanCompile e := by
  unfold typed
  split
  · rename_i v hv
    exact ⟨fun _ => canCompile_of_value? hv, fun _ => ⟨_, rfl⟩⟩
  · exact Iff.rfl

theorem exists_compileTyped_iff (type : Option ColumnType) :
    (∃ as, s.compileTyped type es = .ok as) ↔ ∀ e ∈ es, s.CanCompile e := by
  induction es with
  | nil => exact ⟨fun _ _ he => absurd he List.not_mem_nil, fun _ => ⟨[], rfl⟩⟩
  | cons e es ih =>
    rw [List.forall_mem_cons, ← ih, ← exists_typed_iff type]
    simp only [compileTyped, Except.bind_eq_ok]
    exact ⟨fun ⟨_, x, hx, xs, hxs, _⟩ => ⟨⟨x, hx⟩, xs, hxs⟩,
      fun ⟨⟨x, hx⟩, xs, hxs⟩ => ⟨_, x, hx, xs, hxs, rfl⟩⟩

theorem canCompile_list : s.CanCompile (.list es) ↔ ∀ e ∈ es, s.CanCompile e := by
  rw [← exists_compileAll_iff]
  simp only [CanCompile, compile, Except.bind_eq_ok]
  exact ⟨fun ⟨_, xs, hxs, _⟩ => ⟨xs, hxs⟩, fun ⟨xs, hxs⟩ => ⟨_, xs, hxs, rfl⟩⟩

theorem canCompile_call {f : String} {distinct : Bool} {args : List Query.Expr} :
    s.CanCompile (.call f distinct args) ↔ ∀ e ∈ args, s.CanCompile e := by
  rw [← exists_compileAll_iff]
  simp only [CanCompile, compile, Except.bind_eq_ok]
  exact ⟨fun ⟨_, xs, hxs, _⟩ => ⟨xs, hxs⟩, fun ⟨xs, hxs⟩ => ⟨_, xs, hxs, rfl⟩⟩

/-- A comparison is compiled when both sides are. -/
theorem canCompile_compare {op : Query.Comparison} :
    s.CanCompile (.compare op l r) ↔ s.CanCompile l ∧ s.CanCompile r := by
  constructor
  · rintro ⟨a, ha⟩
    obtain ⟨x, hx, ⟨es, ys, -, rfl, hys, -⟩ | ⟨y, hy, -⟩⟩ := compile_compare_eq_ok ha
    · exact ⟨⟨_, compile_of_operand hx⟩, canCompile_list.mpr ((exists_compileTyped_iff _).mp ⟨ys, hys⟩)⟩
    · exact ⟨⟨_, compile_of_operand hx⟩, _, compile_of_operand hy⟩
  · rintro ⟨hl, hr⟩
    obtain ⟨x, hx⟩ := canCompile_iff_operand.mp hl
    obtain ⟨y, hy⟩ := canCompile_iff_operand.mp hr
    by_cases hop : op = .isIn
    · subst hop
      -- a list that is written out is compiled element by element
      by_cases hlist : ∃ es, r = .list es
      · obtain ⟨es, rfl⟩ := hlist
        obtain ⟨ys, hys⟩ := (exists_compileTyped_iff x.type).mpr (canCompile_list.mp hr)
        refine ⟨.inList x.expr ys, ?_⟩
        rw [compile]
        exact Except.bind_eq_ok.mpr ⟨x, hx, Except.bind_eq_ok.mpr ⟨ys, hys, rfl⟩⟩
      · refine ⟨.equalsAny x.expr y.expr, ?_⟩
        rw [compile]
        · exact Except.bind_eq_ok.mpr ⟨x, hx, Except.bind_eq_ok.mpr ⟨y, hy, rfl⟩⟩
        · exact fun es he => hlist ⟨es, he⟩
    · obtain ⟨x', hx'⟩ := exists_typed_ok l y.type x.expr
      obtain ⟨y', hy'⟩ := exists_typed_ok r x.type y.expr
      refine ⟨comparison op x' y', ?_⟩
      rw [compile]
      · refine Except.bind_eq_ok.mpr ⟨x, hx, Except.bind_eq_ok.mpr ⟨y, hy, ?_⟩⟩
        exact Except.bind_eq_ok.mpr ⟨x', hx', Except.bind_eq_ok.mpr ⟨y', hy', rfl⟩⟩
      · exact fun _ he => absurd he hop
      · exact hop

mutual

/-- **An expression is compiled just when it is expressible and its operands are found.** -/
theorem canCompile_iff : ∀ {e : Query.Expr},
    s.CanCompile e ↔ e.expressible = true ∧ ∀ o ∈ e.operands, ∃ r, s.lookup o = .ok r
  | .var x => by
    rw [canCompile_var]
    simp [Query.Expr.expressible, Query.Expr.operands]
  | .property e key => by
    cases e with
    | var x =>
      rw [canCompile_property]
      simp [Query.Expr.expressible, Query.Expr.operands]
    | _ => simp [Query.Expr.expressible, CanCompile, compile]
  | .null => by simp [Query.Expr.expressible, Query.Expr.operands, CanCompile, compile]
  | .boolean b => by simp [Query.Expr.expressible, Query.Expr.operands, CanCompile, compile]
  | .integer n => by simp [Query.Expr.expressible, Query.Expr.operands, CanCompile, compile]
  | .number x => by simp [Query.Expr.expressible, Query.Expr.operands, CanCompile, compile]
  | .text x => by simp [Query.Expr.expressible, Query.Expr.operands, CanCompile, compile]
  | .callStar f => by simp [Query.Expr.expressible, Query.Expr.operands, CanCompile, compile]
  | .map entries => by simp [Query.Expr.expressible, CanCompile, compile]
  | .list es => by
    rw [canCompile_list, forall_canCompile_iff]
    rfl
  | .call f distinct args => by
    rw [canCompile_call, forall_canCompile_iff]
    rfl
  | .not e => by
    rw [canCompile_not, canCompile_iff]
    rfl
  | .negate e => by
    rw [canCompile_negate, canCompile_iff]
    rfl
  | .nullTest negated e => by
    rw [canCompile_nullTest, canCompile_iff]
    rfl
  | .binary op l r => by
    rw [canCompile_binary, canCompile_iff (e := l), canCompile_iff (e := r), Query.Expr.expressible,
      Query.Expr.operands, Bool.and_eq_true, List.forall_mem_append, and_and_and_comm]
  | .compare op l r => by
    rw [canCompile_compare, canCompile_iff (e := l), canCompile_iff (e := r), Query.Expr.expressible,
      Query.Expr.operands, Bool.and_eq_true, List.forall_mem_append, and_and_and_comm]

theorem forall_canCompile_iff : ∀ {es : List Query.Expr}, (∀ e ∈ es, s.CanCompile e) ↔
    Query.Expr.expressibleAll es = true ∧
      ∀ o ∈ Query.Expr.operandsAll es, ∃ r, s.lookup o = .ok r
  | [] => by simp [Query.Expr.expressibleAll, Query.Expr.operandsAll]
  | e :: es => by
    rw [List.forall_mem_cons, canCompile_iff (e := e), forall_canCompile_iff,
      Query.Expr.expressibleAll, Query.Expr.operandsAll, Bool.and_eq_true, List.forall_mem_append,
      and_and_and_comm]

end

/-! ## Which items become columns -/

/-- A call becomes a column when it is compiled; an aggregate looks at its first argument once more. -/
theorem exists_callColumn {f : String} {call : Query.Expr} {args : List Query.Expr}
    {asName : Option String} (hcall : s.CanCompile call) (hargs : ∀ e ∈ args, s.CanCompile e) :
    ∃ c, s.callColumn f call args asName = .ok c := by
  obtain ⟨a, ha⟩ := hcall
  obtain ⟨argument, hargument⟩ : ∃ argument, args.head?.mapM s.resolve = .ok argument := by
    cases args with
    | nil => exact ⟨none, rfl⟩
    | cons e es =>
      obtain ⟨r, hr⟩ := canCompile_iff_operand.mp (hargs e List.mem_cons_self)
      exact ⟨some r, Except.map_eq_ok.mpr ⟨r, hr, rfl⟩⟩
  unfold callColumn
  split
  · exact ⟨_, Except.bind_eq_ok.mpr ⟨argument, hargument, Except.bind_eq_ok.mpr ⟨a, ha, rfl⟩⟩⟩
  · exact ⟨_, Except.bind_eq_ok.mpr ⟨a, ha, rfl⟩⟩

/-- **An item that is not a name becomes a column when it is compiled.** -/
theorem exists_itemColumns_iff {index : Nat} {item : Query.ReturnItem}
    (hitem : ∀ x, item.expr ≠ .var x) :
    (∃ cs, s.itemColumns index item = .ok cs) ↔ s.CanCompile item.expr := by
  refine ⟨fun ⟨cs, hcs⟩ => ?_, fun hcompiles => ?_⟩
  · obtain ⟨c, -, hc⟩ := compile_of_itemColumns hitem hcs
    exact ⟨c.expr, hc⟩
  · have hone : ∀ {x : Except Error ResultColumn}, (∃ c, x = .ok c) →
        ∃ cs, (x >>= fun c => pure [c]) = .ok cs := fun ⟨c, hc⟩ =>
      ⟨_, Except.bind_eq_ok.mpr ⟨c, hc, rfl⟩⟩
    unfold itemColumns
    split
    · rename_i x hx
      exact absurd hx (hitem x)
    · rename_i x key hx
      rw [hx, canCompile_property] at hcompiles
      obtain ⟨r, hr⟩ := hcompiles
      exact ⟨_, Except.bind_eq_ok.mpr ⟨r, hr, rfl⟩⟩
    · rename_i f distinct args hx
      rw [hx] at hcompiles
      exact hone (exists_callColumn hcompiles (canCompile_call.mp hcompiles))
    · rename_i f hx
      rw [hx] at hcompiles
      exact hone (exists_callColumn hcompiles fun _ he => absurd he List.not_mem_nil)
    · obtain ⟨a, ha⟩ := hcompiles
      exact hone ⟨_, Except.bind_eq_ok.mpr ⟨a, ha, rfl⟩⟩

/-- An item that is not a name gives one column, with what the item is compiled to. -/
theorem Gives.exists_compile {part : Part} (h : s.Gives part) (hitem : ∀ x, part.1.expr ≠ .var x) :
    ∃ c, part.2 = [c] ∧ s.compile part.1.expr = .ok c.expr := by
  obtain ⟨index, wanted, taken, hwanted, hcolumns⟩ := h
  obtain ⟨c, rfl, hc⟩ := compile_of_itemColumns hitem hwanted
  exact ⟨_, hcolumns, hc⟩

/-! ## What compiled expressions refer to -/

/-- The columns that are found for an operand. -/
def reads (s : Scope) (o : Query.Operand) : List (String × String) :=
  ((s.lookup o).toOption.map fun r => r.expr.references).getD []

/-- The compiled expression refers to what is found for the operands and calls the functions of the
expression. -/
structure Traced (s : Scope) (e : Query.Expr) (a : Expr) : Prop where
  references : a.references = e.operands.flatMap s.reads
  functions : a.functions = e.functions.map functionName

@[inherit_doc Traced]
structure TracedAll (s : Scope) (es : List Query.Expr) (as : List Expr) : Prop where
  references : Expr.referencesAll as = (Query.Expr.operandsAll es).flatMap s.reads
  functions : Expr.functionsAll as = (Query.Expr.functionsAll es).map functionName

theorem tracedAll_nil : TracedAll s [] [] := ⟨rfl, rfl⟩

theorem Traced.cons {as : List Expr} (h : Traced s e a) (hs : TracedAll s es as) :
    TracedAll s (e :: es) (a :: as) where
  references := by
    rw [Expr.referencesAll, Query.Expr.operandsAll, List.flatMap_append, h.references,
      hs.references]
  functions := by
    rw [Expr.functionsAll, Query.Expr.functionsAll, List.map_append, h.functions,
      hs.functions]

/-- A literal that stands for its value reads nothing. -/
theorem traced_of_value? {v : Value} (h : e.value? = some v) (l : Relational.Literal) :
    Traced s e (.literal l) := by
  obtain ⟨ho, hf⟩ := Query.Expr.operands_of_value? h
  constructor
  · rw [ho]
    rfl
  · rw [hf]
    rfl

theorem Traced.of_typed {type : Option ColumnType} {x : Except Error Expr}
    (hx : ∀ b, x = .ok b → Traced s e b) (h : typed e type x = .ok a) : Traced s e a := by
  rcases typed_eq_ok h with ⟨v, hv, rfl⟩ | ⟨-, h⟩
  · exact traced_of_value? hv _
  · exact hx a h

/-- Two expressions side by side, in whatever is made of them. -/
theorem Traced.pair {x y : Expr} (hl : Traced s l x) (hr : Traced s r y)
    (ho : e.operands = l.operands ++ r.operands) (hf : e.functions = l.functions ++ r.functions)
    (hrefs : a.references = x.references ++ y.references)
    (hcalls : a.functions = x.functions ++ y.functions) : Traced s e a where
  references := by rw [hrefs, ho, List.flatMap_append, hl.references, hr.references]
  functions := by rw [hcalls, hf, List.map_append, hl.functions, hr.functions]

/-- A single operand. -/
theorem traced_operand {o : Query.Operand} {r : Resolved} (ho : e.operands = [o])
    (hf : e.functions = []) (h : s.lookup o = .ok r) (hr : r.expr.functions = []) :
    Traced s e r.expr where
  references := by
    rw [ho, List.flatMap_singleton, reads, h]
    rfl
  functions := by
    rw [hf, hr]
    rfl

theorem functions_of_lookupName {r : Resolved} (h : s.lookupName x = .ok r) :
    r.expr.functions = [] := by
  rcases lookupName_eq_ok h with ⟨n, table, columns, labels, -, -, rfl⟩ | ⟨e, -, rfl⟩ |
    ⟨p, -, c, -, rfl⟩
  · rfl
  · rfl
  · rfl

theorem functions_of_lookupProperty {key : String} {r : Resolved}
    (h : s.lookupProperty x key = .ok r) : r.expr.functions = [] := by
  rcases lookupProperty_eq_ok h with ⟨table, columns, c, -, -, rfl⟩ | ⟨p, -, c, -, rfl⟩
  · rfl
  · rfl

theorem comparison_references (op : Query.Comparison) (l r : Expr) :
    (comparison op l r).references = l.references ++ r.references ∧
      (comparison op l r).functions = l.functions ++ r.functions := by
  cases op <;> exact ⟨rfl, rfl⟩

theorem carries_traced : Carries s (Traced s) (TracedAll s) fun _ => TracedAll s where
  name hr := traced_operand rfl rfl hr (functions_of_lookupName hr)
  property hr := traced_operand rfl rfl hr (functions_of_lookupProperty hr)
  constant hl := hl.exists_value?.elim fun _ hv => traced_of_value? hv _
  list has := ⟨has.references, has.functions⟩
  not ha := ⟨ha.references, ha.functions⟩
  negate _ ha := ⟨ha.references, ha.functions⟩
  binary hx hy := hx.pair hy rfl rfl rfl rfl
  nullTest ha := ⟨ha.references, ha.functions⟩
  inList {_ es _ ys} _ hx hys := by
    have hr : Traced s (.list es) (.array ys) := ⟨hys.references, hys.functions⟩
    exact hx.pair hr rfl rfl rfl rfl
  equalsAny _ hx hy := hx.pair hy rfl rfl rfl rfl
  compare _ _ _ _ hx' hy' hx hy := by
    have hl : Traced s _ _ := .of_typed (by rintro _ ⟨⟩; exact hx) hx'
    have hr : Traced s _ _ := .of_typed (by rintro _ ⟨⟩; exact hy) hy'
    obtain ⟨hrefs, hcalls⟩ := comparison_references _ _ _
    exact hl.pair hr rfl rfl hrefs hcalls
  call {f _ _ _} has := ⟨has.references, congrArg (functionName f :: ·) has.functions⟩
  callStar := ⟨rfl, rfl⟩
  nil := tracedAll_nil
  cons ha has := ha.cons has
  nearNil := tracedAll_nil
  nearCons ha he has := (Traced.of_typed he ha).cons has

/-- **A compiled expression refers to what is found for its operands.** -/
theorem traced_of_compile (h : s.compile e = .ok a) : Traced s e a :=
  carries_traced.compile e h

end Scope

end GraphSql
