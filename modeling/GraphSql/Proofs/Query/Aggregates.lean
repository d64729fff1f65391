import Mathlib.Data.List.Basic
import GraphSql.Function

/-!
# Calls of aggregates in an expression

Whether an expression calls an aggregate can be asked in two ways: anywhere in it
(`Expr.CallsAggregate`), or at a place that is not inside of a list or a map (`Expr.CallsOpenly`).
`Expr.aggregates` decides the second question (`Expr.aggregates_iff`).  The two differ: `[count(n)]`
calls an aggregate, but not openly.
-/

namespace GraphSql

/-- The names of the aggregates in small letters. -/
def aggregateNames : List String := ["count", "sum", "avg", "min", "max", "collect"]

theorem isSome_ofName?_iff {f : String} :
    (Aggregate.ofName? f).isSome = true ↔ Text.lower f ∈ aggregateNames := by
  have hnames : aggregateNames = Aggregate.all.map Aggregate.name := rfl
  rw [Aggregate.ofName?, List.find?_isSome, hnames, List.mem_map]
  simp only [beq_iff_eq]

namespace Query.Expr

variable {e : Expr}

/-- The function that an expression calls. -/
def function? : Expr → Option String
  | .call f _ _ => some f
  | .callStar f => some f
  | _ => none

/-- A call of an aggregate. -/
def AggregateCall (e : Expr) : Prop := ∃ f, e.function? = some f ∧ Text.lower f ∈ aggregateNames

/-- The expressions that an expression is made of. -/
def parts : Expr → List Expr
  | .property e _ => [e]
  | .list es => es
  | .map entries => entries.map Prod.snd
  | .not e => [e]
  | .negate e => [e]
  | .binary _ l r => [l, r]
  | .compare _ l r => [l, r]
  | .nullTest _ e => [e]
  | .call _ _ args => args
  | _ => []

/-- The parts of an expression that is not a list or a map. -/
def openParts : Expr → List Expr
  | .list _ => []
  | .map _ => []
  | e => e.parts

/-- `d` is `e` itself or stands in one of the parts that `next` gives. -/
inductive Holds (next : Expr → List Expr) (d : Expr) : Expr → Prop
  | self : Holds next d d
  | part {c e : Expr} : c ∈ next e → Holds next d c → Holds next d e

/-- An aggregate is called somewhere in the expression. -/
def CallsAggregate (e : Expr) : Prop := ∃ d : Expr, d.AggregateCall ∧ Holds parts d e

/-- An aggregate is called in the expression outside of lists and maps. -/
def CallsOpenly (e : Expr) : Prop := ∃ d : Expr, d.AggregateCall ∧ Holds openParts d e

theorem CallsOpenly.of_part {c : Expr} (hc : c ∈ e.openParts) (h : c.CallsOpenly) :
    e.CallsOpenly := by
  obtain ⟨d, hd, hholds⟩ := h
  exact ⟨d, hd, .part hc hholds⟩

theorem callsOpenly_of_function? {f : String} (he : e.function? = some f)
    (hf : (Aggregate.ofName? f).isSome = true) : e.CallsOpenly :=
  ⟨e, ⟨f, he, isSome_ofName?_iff.mp hf⟩, .self⟩

theorem mem_parts_of_mem_openParts {c : Expr} (h : c ∈ e.openParts) : c ∈ e.parts := by
  cases e with
  | list es => cases h
  | map entries => cases h
  | _ => exact h

theorem CallsOpenly.callsAggregate (h : e.CallsOpenly) : e.CallsAggregate := by
  obtain ⟨d, hd, hholds⟩ := h
  refine ⟨d, hd, ?_⟩
  induction hholds with
  | self => exact .self
  | part hc _ ih => exact .part (mem_parts_of_mem_openParts hc) ih

theorem not_callsAggregate (he : e.function? = none) (hparts : ∀ c ∈ e.parts, ¬ c.CallsAggregate) :
    ¬ e.CallsAggregate := by
  rintro ⟨d, hd, hholds⟩
  cases hholds with
  | self =>
    obtain ⟨f, hf, -⟩ := hd
    rw [he] at hf
    cases hf
  | part hc hholds => exact hparts _ hc ⟨d, hd, hholds⟩

/-- A property of a variable calls nothing. -/
theorem not_callsAggregate_property (x key : String) :
    ¬ (Expr.property (.var x) key).CallsAggregate := by
  refine not_callsAggregate rfl fun c hc => ?_
  rw [List.mem_singleton.mp hc]
  exact not_callsAggregate rfl fun _ hc => by cases hc

/-! ## Aggregates are found outside of lists and maps -/

theorem anyAggregates_iff {es : List Expr} :
    anyAggregates es = true ↔ ∃ e ∈ es, e.aggregates = true := by
  induction es with
  | nil => simp [anyAggregates]
  | cons e es ih => simp [anyAggregates, ih]

/-- A call is found in an expression when it is found in one of its open parts. -/
theorem aggregates_of_part {c : Expr} (hc : c ∈ e.openParts) (h : c.aggregates = true) :
    e.aggregates = true := by
  cases e with
  | property e key =>
    rw [List.mem_singleton.mp hc] at h
    exact h
  | not e =>
    rw [List.mem_singleton.mp hc] at h
    exact h
  | negate e =>
    rw [List.mem_singleton.mp hc] at h
    exact h
  | nullTest negated e =>
    rw [List.mem_singleton.mp hc] at h
    exact h
  | binary op l r =>
    rw [aggregates, Bool.or_eq_true]
    rcases List.mem_pair.mp hc with rfl | rfl
    · exact .inl h
    · exact .inr h
  | compare op l r =>
    rw [aggregates, Bool.or_eq_true]
    rcases List.mem_pair.mp hc with rfl | rfl
    · exact .inl h
    · exact .inr h
  | call f distinct args =>
    rw [aggregates, Bool.or_eq_true]
    exact .inr (anyAggregates_iff.mpr ⟨c, hc, h⟩)
  | _ => cases hc

theorem AggregateCall.aggregates (h : e.AggregateCall) : e.aggregates = true := by
  obtain ⟨f, he, hf⟩ := h
  have hname := isSome_ofName?_iff.mpr hf
  cases e with
  | call g distinct args =>
    cases he
    rw [Expr.aggregates, hname, Bool.true_or]
  | callStar g =>
    cases he
    exact hname
  | _ => cases he

theorem CallsOpenly.aggregates (h : e.CallsOpenly) : e.aggregates = true := by
  obtain ⟨d, hd, hholds⟩ := h
  induction hholds with
  | self => exact hd.aggregates
  | part hc _ ih => exact aggregates_of_part hc ih

mutual

theorem callsOpenly_of_aggregates : ∀ {e : Expr}, e.aggregates = true → e.CallsOpenly
  | .call f distinct args, h => by
    rw [aggregates, Bool.or_eq_true] at h
    rcases h with h | h
    · exact callsOpenly_of_function? rfl h
    · obtain ⟨c, hc, hopen⟩ := exists_callsOpenly_of_anyAggregates h
      exact hopen.of_part hc
  | .callStar f, h => callsOpenly_of_function? rfl h
  | .property e key, h => (callsOpenly_of_aggregates (e := e) h).of_part List.mem_cons_self
  | .not e, h => (callsOpenly_of_aggregates (e := e) h).of_part List.mem_cons_self
  | .negate e, h => (callsOpenly_of_aggregates (e := e) h).of_part List.mem_cons_self
  | .nullTest negated e, h => (callsOpenly_of_aggregates (e := e) h).of_part List.mem_cons_self
  | .binary op l r, h => by
    rw [aggregates, Bool.or_eq_true] at h
    rcases h with h | h
    · exact (callsOpenly_of_aggregates h).of_part List.mem_cons_self
    · exact (callsOpenly_of_aggregates h).of_part (List.mem_pair.mpr (.inr rfl))
  | .compare op l r, h => by
    rw [aggregates, Bool.or_eq_true] at h
    rcases h with h | h
    · exact (callsOpenly_of_aggregates h).of_part List.mem_cons_self
    · exact (callsOpenly_of_aggregates h).of_part (List.mem_pair.mpr (.inr rfl))

theorem exists_callsOpenly_of_anyAggregates : ∀ {es : List Expr}, anyAggregates es = true →
    ∃ e ∈ es, e.CallsOpenly
  | e :: es, h => by
    rw [anyAggregates, Bool.or_eq_true] at h
    rcases h with h | h
    · exact ⟨e, List.mem_cons_self, callsOpenly_of_aggregates h⟩
    · obtain ⟨c, hc, hopen⟩ := exists_callsOpenly_of_anyAggregates h
      exact ⟨c, List.mem_cons_of_mem e hc, hopen⟩

end

/-- **Calls of aggregates are found outside of lists and maps.** -/
theorem aggregates_iff : e.aggregates = true ↔ e.CallsOpenly :=
  ⟨callsOpenly_of_aggregates, CallsOpenly.aggregates⟩

end Query.Expr

end GraphSql
