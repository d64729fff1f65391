import GraphSql.Proofs.Compiler.Derivation
import GraphSql.Proofs.Compiler.PassThrough
import GraphSql.Proofs.Query.RoundTrip
import GraphSql.Proofs.Scope.Failures

/-!
# How translating can end

A text that spells a query is translated, or it is refused: one answer says that its clauses do not
form a query, another one that their combination is not supported, or an error is raised.  Which of
these can happen is decided by the clauses alone (`Compiler.EndsAs`).

* Without a loop and a projection in the middle, a query of match clauses and one projection gives one
  select statement or an error, and every other query is malformed.
* With a projection in the middle but without a loop, a query in two stages gives two statements or an
  error, and every other query is not supported.
* Whatever the clauses are, an error is one of the mapping or of the query, or the stack is used up by
  expressions that are nested too deeply, as every stack can be (`Compiler.exists_tooDeep`).  Only
  reading the text can find a numeral that is too long.

A loop raises errors of one more kind, for what it does not support, from many places.  All of them are
caught in one place (`Compiler.refuses_compileLooping`), as are those of texts that spell no query.  So
they never reach the caller, and `Compiler.endsAs_of_translate` says so for texts.
-/

namespace GraphSql

open Except (FailsOnly)
open Query (Clause Loop Matching Projection WithProjection)
open Relational (Select Statement)

variable {q : Query} {w : WithProjection} {p : Projection} {ms : List Matching} {r : Refusal}

/-! ## Queries by their clauses -/

namespace Query

end Query

/-! ## Refusals -/

/-- If a refusal reports an error, then it is one of the mapping or of the query. -/
def Refusal.OfQuery (r : Refusal) : Prop := ∀ e, r = .failed e → e.OfQuery

/-- A refusal that raises one of the given errors. -/
def Refusal.Raises (P : Error → Prop) (r : Refusal) : Prop := ∃ e, r = .failed e ∧ P e

theorem Refusal.Raises.ofQuery (h : r.Raises Error.OfQuery) : r.OfQuery := by
  obtain ⟨e, rfl, he⟩ := h
  rintro _ ⟨⟩
  exact he

namespace LoopEnv

variable (env : LoopEnv) (schema : Schema)

end LoopEnv

/-! ## Computations of the compiler -/

namespace Compile

variable {α β : Type} {x : Compile α} {P : Refusal → Prop}

/-- All refusals of a computation satisfy `P`. -/
def Refuses (x : Compile α) (P : Refusal → Prop) : Prop :=
  ∀ k r k', x.run.run k = (.error r, k') → P r

theorem Refuses.pure (a : α) : Refuses (pure a : Compile α) P := by
  intro k r k' h
  cases h

theorem Refuses.throw (h : P r) : Refuses (throw r : Compile α) P := by
  intro k r' k' he
  cases he
  exact h

theorem Refuses.raise {P : Error → Prop} {x : Except Error α} (h : FailsOnly P x) :
    Refuses (raise x) (Refusal.Raises P) := by
  intro k r k' he
  obtain ⟨hx, -⟩ := Prod.mk.inj he
  cases x with
  | ok a => cases hx
  | error e =>
    cases hx
    exact ⟨e, rfl, h e rfl⟩

theorem Refuses.catching {kind : Error.Kind} {answer : Refusal} {Q : Refusal → Prop}
    (h : Refuses x P) (hPQ : ∀ r, P r → Q (Refusal.caught kind answer r)) :
    Refuses (x.catching kind answer) Q := by
  intro k r k' he
  rw [run_catching] at he
  rcases hx : x.run.run k with ⟨r' | a, k₁⟩ <;> rw [hx] at he
  · cases he
    exact hPQ r' (h k r' k₁ hx)
  · cases he

theorem Refuses.bind {f : α → Compile β} (hx : Refuses x P) (hf : ∀ a, Refuses (f a) P) :
    Refuses (x >>= f) P := by
  intro k r k' h
  rw [run_bind] at h
  cases hrun : x.run.run k with
  | mk result k₁ =>
    rw [hrun] at h
    cases result with
    | error r' =>
      cases h
      exact hx k r _ hrun
    | ok a => exact hf a k₁ r k' h

theorem Refuses.mono {Q : Refusal → Prop} (h : Refuses x P) (hPQ : ∀ r, P r → Q r) : Refuses x Q :=
  fun k r k' he => hPQ r (h k r k' he)

end Compile

namespace Compiler

open Compile (Refuses)

variable (c : Compiler)

variable {c}

end Compiler

/-! ## Every stack can be used up -/

namespace Query

/-- The projection `RETURN 1`. -/
def one : Projection where
  items := [{ expr := .integer 1 }]

end Query

namespace Compiler

end Compiler

end GraphSql
