import GraphSql.Proofs.Compiler.Spelling
import GraphSql.Proofs.Compiler.Derivation

/-!
# Loops over lists that are written out

A loop over a list that is written out is a homomorphism of lists.  With the same clauses before it, the
loop over `xs ++ ys` is compiled to one setup, what the loop over `xs` becomes behind this setup, and what
the loop over `ys` becomes behind it (`Compiler.unrolls_append`).

There are two reasons for it.  An element has no say in whether the actions can be written: for any two
elements the writes agree (`LoopEnv.agree_action`), since any value can be written where something of
any type is wanted.  And the setup depends on the list only in whether it is empty, so that
`Compiler.Unrolls` can tell for all other lists at once what they become.
-/

namespace GraphSql

open Except (Agree)
open Query (Action Assignment Loop)
open Relational (Statement Write)

variable {es : List Query.Expr} {vs : List Value}

/-- How many writes an action becomes for one element: a new edge is one, and assignments are one for
each variable whose properties they set. -/
def Query.Action.writeCount : Action → Nat
  | .set items => (Query.firstAppearances (items.map Assignment.name)).length
  | .create _ => 1

/-- How many writes actions become for one element. -/
def Query.writeCount : List Action → Nat
  | [] => 0
  | a :: actions => a.writeCount + writeCount actions

/-- The loop with the same actions over a list that is written out. -/
def Query.Loop.over (l : Loop) (elements : List Query.Expr) : Loop :=
  { l with source := .list elements }

namespace Query.Expr

theorem values?_eq_some :
    values? es = some vs ↔ List.Forall₂ (fun e v => value? e = some v) es vs := by
  induction es generalizing vs with
  | nil => simp [values?, eq_comm]
  | cons e es ih =>
    rw [values?, List.forall₂_cons_left_iff]
    constructor
    · intro h
      split at h
      · rename_i v vs' hv hvs'
        cases h
        exact ⟨v, vs', hv, ih.mp hvs', rfl⟩
      · cases h
    · rintro ⟨v, vs', hv, hvs', rfl⟩
      rw [hv, ih.mpr hvs']

/-- The literals of two lists, one behind the other. -/
theorem values?_append {fs : List Query.Expr} {ws : List Value} (hes : values? es = some vs)
    (hfs : values? fs = some ws) : values? (es ++ fs) = some (vs ++ ws) :=
  values?_eq_some.mpr (List.rel_append (values?_eq_some.mp hes) (values?_eq_some.mp hfs))

theorem length_of_values? (h : values? es = some vs) : vs.length = es.length :=
  (values?_eq_some.mp h).length_eq.symm

end Query.Expr

/-! ## One element in place of another -/

namespace LoopEnv

variable (env : LoopEnv) (schema : Schema) (v w : Value)

/-- The same variables at another element of the list. -/
def withElement : LoopEnv := { env with element := some v }

theorem agree_value (type : ColumnType) (e : Query.Expr) :
    Agree (fun _ _ => True) ((env.withElement v).value type e)
      ((env.withElement w).value type e) := by
  have hliteral : ∀ x : Except Error Relational.Operand, Agree (fun _ _ => True) x x :=
    Agree.refl fun _ => trivial
  cases e with
  | var name => exact Agree.ite Iff.rfl (fun _ => .ok trivial) fun _ => hliteral _
  | _ => exact hliteral _

theorem agree_idOf (x : String) :
    Agree (fun _ _ => True) ((env.withElement v).idOf x) ((env.withElement w).idOf x) := by
  refine Agree.ite Iff.rfl (fun _ => ?_) fun _ => ?_
  · exact Agree.ite Iff.rfl (fun _ => .ok trivial) fun _ => .ok trivial
  · exact Agree.refl (fun _ => trivial) _

/-- The rows to update are in the same table, although the test for them is another. -/
theorem agree_target (x : String) :
    Agree (fun a b => a.1 = b.1) ((env.withElement v).target x) ((env.withElement w).target x) := by
  refine Agree.ite Iff.rfl (fun _ => .ok rfl) fun _ => ?_
  exact (Agree.refl (R := Eq) (fun _ => rfl) _).mono fun _ _ h => congrArg Prod.fst h

theorem agree_assigned (table : String) (columns : List Column) (a : Assignment) :
    Agree (fun _ _ => True) ((env.withElement v).assigned table columns a)
      ((env.withElement w).assigned table columns a) := by
  unfold assigned
  cases Column.find? columns a.key with
  | none => exact .error _
  | some c => exact (env.agree_value v w c.type a.value).bind fun _ _ _ => .ok trivial

theorem agree_update (items : List Assignment) (x : String) :
    Agree (fun _ _ => True) ((env.withElement v).update schema items x)
      ((env.withElement w).update schema items x) := by
  refine (env.agree_target v w x).bind ?_
  rintro ⟨table, test⟩ ⟨table', test'⟩ htable
  obtain rfl : table = table' := htable
  refine (Agree.refl (fun _ => rfl) (schema.columnsOfTable table)).bind ?_
  rintro columns columns' rfl
  refine (Agree.mapM fun a _ => env.agree_assigned v w table columns a).bind fun _ _ _ => ?_
  exact .ok trivial

theorem agree_edgeProperty (type : Schema.TypeTable) (property : String × Query.Expr) :
    Agree (fun _ _ => True) ((env.withElement v).edgeProperty type property)
      ((env.withElement w).edgeProperty type property) := by
  unfold edgeProperty
  cases Column.find? type.columns property.1 with
  | none => exact .error _
  | some c => exact (env.agree_value v w c.type property.2).bind fun _ _ _ => .ok trivial

theorem agree_insertEdge (p : Query.Pattern) :
    Agree (fun _ _ => True) ((env.withElement v).insertEdge schema p)
      ((env.withElement w).insertEdge schema p) := by
  unfold insertEdge
  split
  · split
    · exact .error _
    · refine (Agree.refl (fun _ => rfl) _).bind ?_
      rintro type type' rfl
      refine (env.agree_idOf v w _).bind fun _ _ _ => ?_
      refine (env.agree_idOf v w _).bind fun _ _ _ => ?_
      refine (Agree.mapM fun a _ => env.agree_edgeProperty v w type a).bind fun _ _ _ => ?_
      exact .ok trivial
    · exact .error _
  · exact .error _

/-- **No element has a say in whether an action can be written.** -/
theorem agree_action (a : Action) :
    Agree (fun _ _ => True) ((env.withElement v).action schema a)
      ((env.withElement w).action schema a) := by
  cases a with
  | set items =>
    exact (Agree.mapM fun x _ => env.agree_update schema v w items x).mono fun _ _ _ => trivial
  | create p => exact (env.agree_insertEdge schema v w p).bind fun _ _ _ => .ok trivial

theorem length_action {env : LoopEnv} {schema : Schema} {a : Action} {ws : List Write}
    (h : env.action schema a = .ok ws) : ws.length = a.writeCount := by
  cases a with
  | set items => exact (Except.forall₂_of_mapM h).length_eq.symm
  | create p =>
    obtain ⟨w, -, h⟩ := Except.bind_eq_ok.mp h
    cases h
    rfl

end LoopEnv

/-! ## All elements -/

namespace Compiler

section Unrolled

variable (writes : Value → Action → List Write) (actions : List Action)

/-- What the actions become for a list of elements when `writes` tells what each becomes for one:
element by element, and action by action for each. -/
def unrolledWrites (elements : List Value) : List Statement :=
  elements.flatMap fun v => actions.flatMap fun a => (writes v a).map .write

theorem unrolledWrites_append (vs ws : List Value) :
    unrolledWrites writes actions (vs ++ ws) =
      unrolledWrites writes actions vs ++ unrolledWrites writes actions ws :=
  List.flatMap_append

theorem length_flatMap_write {writes : Action → List Write} {actions : List Action}
    (h : ∀ a ∈ actions, (writes a).length = a.writeCount) :
    (actions.flatMap fun a => (writes a).map Statement.write).length = Query.writeCount actions := by
  induction actions with
  | nil => rfl
  | cons a actions ih =>
    rw [List.flatMap_cons, List.length_append, List.length_map, h a List.mem_cons_self,
      ih fun b hb => h b (List.mem_cons_of_mem a hb), Query.writeCount]

theorem length_unrolledWrites (h : ∀ v, ∀ a ∈ actions, (writes v a).length = a.writeCount)
    (vs : List Value) :
    (unrolledWrites writes actions vs).length = vs.length * Query.writeCount actions := by
  induction vs with
  | nil => simp [unrolledWrites]
  | cons v vs ih =>
    show (_ ++ unrolledWrites writes actions vs).length = _
    rw [List.length_append, length_flatMap_write (h v), ih, List.length_cons, Nat.succ_mul,
      Nat.add_comm]

end Unrolled

/-- What a computation answers for all lists of one or more elements: it refuses all of them in the same
way, or the same setup comes before the writes of the elements. -/
inductive Unrolls (c : Compiler) (l : Loop) (k : Nat) (x : List Value → Compile (List Statement)) :
    Prop
  | refused (r : Refusal) (k' : Nat) :
      (∀ vs, vs ≠ [] → (x vs).run.run k = (.error r, k')) → Unrolls c l k x
  | unrolled (setup : List Statement) (k' : Nat) (columns : List (String × ResultColumn))
      (rows : Option String) (writes : Value → Action → List Write) :
      (∀ v, ∀ a ∈ l.actions, (unrolledEnv l columns rows v).action c.schema a = .ok (writes v a)) →
      (∀ vs, vs ≠ [] →
        (x vs).run.run k = (.ok (setup ++ unrolledWrites writes l.actions vs), k')) →
      Unrolls c l k x

variable {c : Compiler} {l : Loop} {k : Nat}

theorem Unrolls.congr {x y : List Value → Compile (List Statement)} (h : Unrolls c l k y)
    (hxy : ∀ vs, vs ≠ [] → x vs = y vs) : Unrolls c l k x := by
  cases h with
  | refused r k' hy =>
    refine .refused r k' fun vs hvs => ?_
    rw [hxy vs hvs, hy vs hvs]
  | unrolled setup k' columns rows writes hwrites hy =>
    refine .unrolled setup k' columns rows writes hwrites fun vs hvs => ?_
    rw [hxy vs hvs, hy vs hvs]

theorem Unrolls.throw (r : Refusal) : Unrolls c l k fun _ => throw r :=
  .refused r k fun _ _ => rfl

/-- What is computed before the list is looked at has no part in it. -/
theorem Unrolls.bind {α : Type} {y : Compile α} {x : α → List Value → Compile (List Statement)}
    (h : ∀ a k', Unrolls c l k' (x a)) : Unrolls c l k fun vs => y >>= fun a => x a vs := by
  rcases hy : y.run.run k with ⟨r | a, k₁⟩
  · refine .refused r k₁ fun vs _ => ?_
    rw [Compile.run_bind, hy]
  · cases h a k₁ with
    | refused r k' hx =>
      refine .refused r k' fun vs hvs => ?_
      rw [Compile.run_bind, hy]
      exact hx vs hvs
    | unrolled setup k' columns rows writes hwrites hx =>
      refine .unrolled setup k' columns rows writes hwrites fun vs hvs => ?_
      rw [Compile.run_bind, hy]
      exact hx vs hvs

theorem Unrolls.catching {kind : Error.Kind} {answer : Refusal}
    {x : List Value → Compile (List Statement)} (h : Unrolls c l k x) :
    Unrolls c l k fun vs => (x vs).catching kind answer := by
  cases h with
  | refused r k' hx =>
    refine .refused (Refusal.caught kind answer r) k' fun vs hvs => ?_
    rw [Compile.run_catching, hx vs hvs]
    rfl
  | unrolled setup k' columns rows writes hwrites hx =>
    refine .unrolled setup k' columns rows writes hwrites fun vs hvs => ?_
    exact Compile.run_catching_eq_ok.mpr (hx vs hvs)

/-- The actions are refused at every element and for the same reason, or each of them becomes writes at
every element. -/
theorem refused_or_written (c : Compiler) (l : Loop) (columns : List (String × ResultColumn))
    (rows : Option String) :
    (∃ e, ∀ v, (unrolledEnv l columns rows v).writes c.schema l.actions = .error e) ∨
      ∃ writes : Value → Action → List Write,
        (∀ v, ∀ a ∈ l.actions,
          (unrolledEnv l columns rows v).action c.schema a = .ok (writes v a)) ∧
        ∀ v, (unrolledEnv l columns rows v).writes c.schema l.actions =
          .ok (l.actions.flatMap (writes v)) := by
  have hagree : ∀ v w, Agree (fun _ _ => True)
      (l.actions.mapM ((unrolledEnv l columns rows v).action c.schema))
      (l.actions.mapM ((unrolledEnv l columns rows w).action c.schema)) := by
    intro v w
    have hactions := (unrolledEnv l columns rows v).agree_action c.schema v w
    exact (Agree.mapM fun a _ => hactions a).mono fun _ _ _ => trivial
  have : Nonempty Value := ⟨.null⟩
  rcases Agree.all_error_or_ok hagree with ⟨e, he⟩ | ⟨results, hresults⟩
  · refine .inl ⟨e, fun v => ?_⟩
    rw [LoopEnv.writes, he v]
    rfl
  · have hwrites : ∀ v, ∀ a ∈ l.actions, (unrolledEnv l columns rows v).action c.schema a =
        .ok (((unrolledEnv l columns rows v).action c.schema a).toOption.getD []) := by
      intro v a ha
      obtain ⟨ws, -, hws⟩ := Except.exists_result_of_mem_mapM (hresults v) ha
      rw [hws]
      rfl
    refine .inr ⟨_, hwrites, fun v => ?_⟩
    rw [LoopEnv.writes, Except.mapM_eq_ok (hwrites v), List.flatMap_def]
    rfl

/-- The writes of all elements behind a setup. -/
theorem unrolls_writes (columns : List (String × ResultColumn)) (setup : List Statement)
    (rows : Option String) :
    Unrolls c l k fun vs => do
      let writes ← Compile.raise (vs.mapM fun v =>
        (unrolledEnv l columns rows v).writes c.schema l.actions)
      return setup ++ writes.flatten.map .write := by
  rcases refused_or_written c l columns rows with ⟨e, he⟩ | ⟨writes, hactions, hwrites⟩
  · refine .refused (.failed e) k fun vs hvs => ?_
    rw [Except.mapM_eq_error hvs fun v _ => he v]
    rfl
  · refine .unrolled setup k columns rows writes hactions fun vs _ => ?_
    have hstatements : (vs.map fun v => l.actions.flatMap (writes v)).flatten.map Statement.write =
        unrolledWrites writes l.actions vs := by
      simp only [unrolledWrites, List.flatMap_def, List.map_flatten, List.map_map,
        Function.comp_def]
    rw [Except.mapM_eq_ok fun v _ => hwrites v, ← hstatements]
    rfl

theorem unrolls_unroll (before : Prepared) (columns : List (String × ResultColumn)) :
    Unrolls c l k (c.unroll before columns l) := by
  -- of the list, the setup only asks whether it is empty
  by_cases hcolumns : columns = []
  · refine (unrolls_writes columns [] none).congr fun vs hvs => ?_
    rw [unroll, if_pos (by simp [hcolumns])]
    rfl
  · refine (Unrolls.bind (y := c.tempTable) fun table _ => unrolls_writes columns
      (before.setup ++ [.createTemp table before.final.select]) (some table)).congr fun vs hvs => ?_
    rw [unroll, if_neg (by simp [hcolumns, hvs])]
    rfl

theorem compileLoop_over (before : Prepared) (l : Loop) (h : Query.Expr.values? es = some vs) :
    c.compileLoop before (l.over es) = Compile.raise (before.final.outputs l.outerNames) >>=
      fun columns => c.unroll before columns l vs := by
  show (Compile.raise _ >>= fun _ => _) = _
  dsimp only [Query.Loop.over]
  rw [h]
  rfl

theorem compileQuery_loop (c : Compiler) (before : Query) (l : Loop) :
    c.compileQuery (before ++ [.looping l]) = c.compileLooping (before ++ [.looping l]) := by
  have hshape : Query.shape (before ++ [.looping l]) = .loop := by
    simp [Query.shape, Query.Clause.isLooping]
  rw [compileQuery, hshape]

/-- **What comes before a loop decides what becomes of it**, for all lists of one or more literals
alike. -/
theorem unrolls_compileQuery (c : Compiler) (before : Query) (l : Loop) (k : Nat) :
    ∃ x, Unrolls c l k x ∧ ∀ es vs, Query.Expr.values? es = some vs →
      c.compileQuery (before ++ [.looping (l.over es)]) = x vs := by
  simp only [compileQuery_loop, compileLooping, List.getLast?_append, List.getLast?_singleton,
    Option.some_or, List.dropLast_concat]
  split
  · exact ⟨_, .throw _, fun _ _ _ => rfl⟩
  · split
    · exact ⟨_, .throw _, fun _ _ _ => rfl⟩
    · split
      · exact ⟨_, .throw _, fun _ _ _ => rfl⟩
      · rename_i q _
        refine ⟨fun vs => c.prepare q >>= fun p =>
            (Compile.raise (p.final.outputs l.outerNames) >>= fun columns =>
              c.unroll p columns l vs).catching .unsupported .unsupported,
          .bind fun p _ => .catching (.bind fun columns _ => unrolls_unroll p columns),
          fun es vs hvs => ?_⟩
        simp only [compileLoop_over _ l hvs]

/-- **A loop over a list that is written out is a homomorphism of lists.**  For two lists of one or more
literals, and the same clauses before the loop, either the loops over the lists and over their
concatenation are all refused in the same way.  Or the same setup with the same names of temporary tables
comes before the writes of the elements, and those of the concatenation are those of the lists, one
behind the other.  Each element has as many writes as its actions count, in their order. -/
theorem unrolls_append (c : Compiler) (before : Query) (l : Loop) (k : Nat) {xs ys : List Query.Expr}
    {vs ws : List Value} (hx : xs ≠ []) (hy : ys ≠ []) (hvs : Query.Expr.values? xs = some vs)
    (hws : Query.Expr.values? ys = some ws) :
    (∃ r k', ∀ zs ∈ [xs, ys, xs ++ ys],
        (c.compileQuery (before ++ [.looping (l.over zs)])).run.run k = (.error r, k')) ∨
      ∃ setup k' columns rows, ∃ writes : Value → Action → List Write,
        (∀ v, ∀ a ∈ l.actions,
          (unrolledEnv l columns rows v).action c.schema a = .ok (writes v a) ∧
            (writes v a).length = a.writeCount) ∧
        (c.compileQuery (before ++ [.looping (l.over xs)])).run.run k =
          (.ok (setup ++ unrolledWrites writes l.actions vs), k') ∧
        (c.compileQuery (before ++ [.looping (l.over ys)])).run.run k =
          (.ok (setup ++ unrolledWrites writes l.actions ws), k') ∧
        (c.compileQuery (before ++ [.looping (l.over (xs ++ ys))])).run.run k =
          (.ok (setup ++ (unrolledWrites writes l.actions vs ++ unrolledWrites writes l.actions ws)),
            k') ∧
        (unrolledWrites writes l.actions vs).length = xs.length * Query.writeCount l.actions ∧
        (unrolledWrites writes l.actions ws).length = ys.length * Query.writeCount l.actions := by
  obtain ⟨x, hunrolls, heq⟩ := unrolls_compileQuery c before l k
  have happend := Query.Expr.values?_append hvs hws
  have hvslen := Query.Expr.length_of_values? hvs
  have hwslen := Query.Expr.length_of_values? hws
  have hv : vs ≠ [] := by
    rintro rfl
    exact hx (List.length_eq_zero_iff.mp hvslen.symm)
  have hw : ws ≠ [] := by
    rintro rfl
    exact hy (List.length_eq_zero_iff.mp hwslen.symm)
  rw [heq xs vs hvs, heq ys ws hws, heq (xs ++ ys) (vs ++ ws) happend]
  cases hunrolls with
  | refused r k' hr =>
    refine .inl ⟨r, k', ?_⟩
    simp only [List.forall_mem_cons, List.not_mem_nil, false_implies, implies_true, and_true]
    rw [heq xs vs hvs, heq ys ws hws, heq (xs ++ ys) (vs ++ ws) happend]
    exact ⟨hr vs hv, hr ws hw, hr (vs ++ ws) (List.append_ne_nil_of_left_ne_nil hv ws)⟩
  | unrolled setup k' columns rows writes hwrites hok =>
    have hlength : ∀ v, ∀ a ∈ l.actions, (writes v a).length = a.writeCount :=
      fun v a ha => LoopEnv.length_action (hwrites v a ha)
    refine .inr ⟨setup, k', columns, rows, writes,
      fun v a ha => ⟨hwrites v a ha, hlength v a ha⟩, hok vs hv, hok ws hw, ?_, ?_, ?_⟩
    · rw [hok (vs ++ ws) (List.append_ne_nil_of_left_ne_nil hv ws), unrolledWrites_append]
    · rw [length_unrolledWrites writes l.actions hlength, hvslen]
    · rw [length_unrolledWrites writes l.actions hlength, hwslen]

/-- The loop `FOREACH (x IN [] | SET a.name = x, b.name = 'known', a.name = 'knows'
CREATE (a)-[:KNOWS {since: x}]->(b))`. -/
def namingLoop : Loop where
  name := "x"
  source := .list []
  actions := [
    .set [⟨"a", "name", .var "x"⟩, ⟨"b", "name", .text "known"⟩, ⟨"a", "name", .text "knows"⟩],
    .create ⟨{ name := some "a" },
      [⟨{ types := ["KNOWS"], direction := .outgoing, properties := some [("since", .var "x")] },
        { name := some "b" }⟩]⟩]

/-- The clause `MATCH (a:Person:Admin)-[:KNOWS]->(b)`. -/
def knowingClause : Query.Clause :=
  .matching { patterns := [⟨{ name := some "a", labels := ["Person", "Admin"] },
    [⟨{ types := ["KNOWS"], direction := .outgoing }, { name := some "b" }⟩]⟩] }

/-- Three writes for each element, whatever its type, behind one temporary table. -/
theorem unrolls_append_knowing :
    [Query.Expr.integer 1, .text "two"] ≠ [] ∧ [Query.Expr.list [.integer 3]] ≠ [] ∧
      ∃ setup k', ∃ writes : Value → Action → List Write,
        (acquaintances.compileQuery ([knowingClause] ++ [.looping (namingLoop.over
          ([.integer 1, .text "two"] ++ [.list [.integer 3]]))])).run.run 0 =
          (.ok (setup ++ (unrolledWrites writes namingLoop.actions [.integer 1, .text "two"] ++
            unrolledWrites writes namingLoop.actions [.list [.integer 3]])), k') ∧
        setup.length = 1 ∧
        (unrolledWrites writes namingLoop.actions [.integer 1, .text "two"]).length = 6 ∧
        (unrolledWrites writes namingLoop.actions [.list [.integer 3]]).length = 3 := by
  have hlength : ((acquaintances.compileQuery ([knowingClause] ++ [.looping (namingLoop.over
      [.integer 1, .text "two"])])).run.run 0).1.toOption.map List.length = some 7 := by
    decide +kernel
  refine ⟨by simp, by simp, ?_⟩
  rcases unrolls_append acquaintances [knowingClause] namingLoop 0
    (List.cons_ne_nil (Query.Expr.integer 1) [.text "two"])
    (List.cons_ne_nil (Query.Expr.list [.integer 3]) []) rfl rfl with
    ⟨r, k', hr⟩ | ⟨setup, k', -, -, writes, -, hxs, -, hboth, hx, hy⟩
  · rw [hr _ List.mem_cons_self] at hlength
    cases hlength
  · refine ⟨setup, k', writes, hboth, ?_, hx, hy⟩
    rw [hxs] at hlength
    have hlength := Option.some.inj hlength
    rw [List.length_append, hx] at hlength
    exact Nat.add_right_cancel hlength

end Compiler

end GraphSql
