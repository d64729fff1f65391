import GraphSql.Compiler.Script
import GraphSql.Proofs.Outcome

/-!
# Results of compiling

What a computation answers comes from what its parts answer.  There is a rule for each way to put such
computations together.
-/

namespace GraphSql.Compile

variable {α β : Type} {x : Compile α} {f : α → Compile β} {k k' : Nat}

theorem run_bind :
    (x >>= f).run.run k =
      match x.run.run k with
      | (.ok a, k₁) => (f a).run.run k₁
      | (.error e, k₁) => (.error e, k₁) := by
  rw [ExceptT.run_bind, StateT.run_bind]
  rcases x.run.run k with ⟨e | a, k₁⟩
  · rfl
  · rfl

theorem exists_run_of_toOption {a : α} (h : (x.run.run k).1.toOption = some a) :
    ∃ k', x.run.run k = (.ok a, k') := by
  revert h
  rcases x.run.run k with ⟨result, k'⟩
  intro h
  obtain rfl : result = .ok a := Except.eq_ok_of_toOption h
  exact ⟨k', rfl⟩

theorem run_bind_eq_ok {b : β} :
    (x >>= f).run.run k = (.ok b, k') ↔
      ∃ a k₁, x.run.run k = (.ok a, k₁) ∧ (f a).run.run k₁ = (.ok b, k') := by
  rw [run_bind]
  rcases x.run.run k with ⟨e | a, k₁⟩
  · constructor
    · intro h
      cases h
    · rintro ⟨_, _, h, -⟩
      cases h
  · constructor
    · exact fun h => ⟨a, k₁, rfl, h⟩
    · rintro ⟨_, _, h, h'⟩
      cases h
      exact h'

theorem eq_ok_of_lift {x : Except Error α} {a : α} (h : Refusal.lift x = .ok a) : x = .ok a := by
  cases x with
  | error e => cases h
  | ok b =>
    cases h
    rfl

theorem run_catching {kind : Error.Kind} {answer : Refusal} :
    (x.catching kind answer).run.run k =
      ((x.run.run k).1.mapError (Refusal.caught kind answer), (x.run.run k).2) := rfl

/-- Errors are caught, but results are kept. -/
theorem run_catching_eq_ok {kind : Error.Kind} {answer : Refusal} {a : α} :
    (x.catching kind answer).run.run k = (.ok a, k') ↔ x.run.run k = (.ok a, k') := by
  rw [run_catching]
  rcases x.run.run k with ⟨e | b, k₁⟩
  · exact ⟨fun h => (by cases h), fun h => (by cases h)⟩
  · exact Iff.rfl

theorem run_ofExcept_bind_eq_ok {x : Except Refusal α} {b : β} :
    (ofExcept x >>= f).run.run k = (.ok b, k') ↔
      ∃ a, x = .ok a ∧ (f a).run.run k = (.ok b, k') := by
  rw [run_bind_eq_ok]
  constructor
  · rintro ⟨a, k₁, ha, h⟩
    obtain ⟨hx, hk⟩ := Prod.mk.inj ha
    subst hk
    exact ⟨a, hx, h⟩
  · rintro ⟨a, rfl, h⟩
    exact ⟨a, k, rfl, h⟩

theorem run_raise_eq_ok {x : Except Error α} {a : α} :
    (raise x).run.run k = (.ok a, k') ↔ x = .ok a ∧ k = k' := by
  constructor
  · intro h
    obtain ⟨hx, hk⟩ := Prod.mk.inj h
    exact ⟨eq_ok_of_lift hx, hk⟩
  · rintro ⟨rfl, rfl⟩
    rfl

theorem run_raise_bind_eq_ok {x : Except Error α} {b : β} :
    (raise x >>= f).run.run k = (.ok b, k') ↔
      ∃ a, x = .ok a ∧ (f a).run.run k = (.ok b, k') := by
  rw [raise, run_ofExcept_bind_eq_ok]
  constructor
  · exact fun ⟨a, ha, h⟩ => ⟨a, eq_ok_of_lift ha, h⟩
  · rintro ⟨a, rfl, h⟩
    exact ⟨a, rfl, h⟩

end GraphSql.Compile

namespace GraphSql

/-- The output columns that were found are those of the names. -/
theorem Plan.mem_outputs {plan : Plan} {names : List String}
    {columns : List (String × ResultColumn)} (h : plan.outputs names = .ok columns) :
    ∀ p ∈ columns, p.1 ∈ names ∧ plan.output? p.1 = some p.2 := by
  intro p hp
  obtain ⟨x, hx, hfound⟩ := Except.exists_of_mem_mapM h hp
  split at hfound
  · rename_i c hc
    cases hfound
    exact ⟨hx, hc⟩
  · cases hfound

namespace Compiler

theorem parse_eq_ok {text : String} {q : Query} (h : parse text = .ok q) :
    Query.parse text = .ok q := by
  unfold parse at h
  revert h
  cases Query.parse text with
  | error e => exact fun h => (by cases h)
  | ok q' =>
    intro h
    cases h
    rfl

/-- What is translated is compiled; the stack can only be too small. -/
theorem run_compile_of_translate {c : Compiler} {text : String} {k k' : Nat}
    {statements : List Relational.Statement}
    (h : (c.translate text).run.run k = (.ok statements, k')) :
    (c.compile text).run.run k = (.ok statements, k') := by
  obtain ⟨q, hq, h⟩ := Compile.run_ofExcept_bind_eq_ok.mp h
  obtain ⟨ss, k₁, hcompile, h⟩ := Compile.run_bind_eq_ok.mp h
  refine Compile.run_ofExcept_bind_eq_ok.mpr ⟨q, hq, ?_⟩
  split at h
  · cases h
  · cases h
    exact hcompile

theorem run_plan_bind_eq_ok {c : Compiler} {β : Type} {relations : List (String × Relation)}
    {ms : List Query.Matching} {p : Query.Projection} {f : Plan → Compile β} {b : β} {k k' : Nat} :
    (c.plan relations ms p >>= f).run.run k = (.ok b, k') ↔
      ∃ plan, Plan.ofClauses c.schema relations ms p = .ok plan ∧
        (f plan).run.run k = (.ok b, k') :=
  Compile.run_raise_bind_eq_ok

end Compiler

end GraphSql
