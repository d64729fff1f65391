import GraphSql.Proofs.Keyed
import GraphSql.Proofs.Outcome
import GraphSql.Proofs.Query.Lexing
import GraphSql.Proofs.Query.Named
import GraphSql.Proofs.Words
import GraphSql.Query.Parser.Clause

/-!
# What holds of every query that was read

Every name of a query that was read from a text is a name token of that text, and every expression
of it was put together from such names; so its parts satisfy whatever holds of all name tokens and is
kept by all ways to put expressions together (`holds_of_parse`).  The clauses of such a query have all
the parts that they need (`Clause.Formed`).  In particular its names are made of the characters of
names (`named_of_parse`, `wordy_of_isName`).

A reserved word with a digit of another script behind it is scanned as a name, but a text that goes on
so is refused: whatever follows a name starts with a mark, which a digit does not.  So a rule about the
results of a parser may rely on what comes next.  `Yields p P` says that all results of a parser behind
which no digit follows satisfy `P`; there is one rule for each way to put parsers together, and each
parser of the grammar is gone through once with these rules.
-/

namespace GraphSql.Query

/-- `E` holds of every expression that is put together from names with `P` and from parts with `E`,
where the keys of a map are different. -/
structure Closed (P : String → Prop) (E : Expr → Prop) : Prop where
  var {x : String} : P x → E (.var x)
  property {e : Expr} {key : String} : E e → P key → E (.property e key)
  null : E .null
  boolean {b : Bool} : E (.boolean b)
  integer {n : Nat} : E (.integer n)
  number {x : Binary64} : E (.number x)
  text {s : String} : E (.text s)
  list {es : List Expr} : (∀ e ∈ es, E e) → E (.list es)
  map {entries : List (String × Expr)} : (entries.map Prod.fst).Nodup →
    (∀ p ∈ entries, P p.1 ∧ E p.2) → E (.map entries)
  not {e : Expr} : E e → E (.not e)
  negate {e : Expr} : E e → E (.negate e)
  binary {op : BinaryOp} {l r : Expr} : E l → E r → E (.binary op l r)
  compare {op : Comparison} {l r : Expr} : E l → E r → E (.compare op l r)
  nullTest {negated : Bool} {e : Expr} : E e → E (.nullTest negated e)
  call {f : String} {distinct : Bool} {args : List Expr} : P f → (∀ e ∈ args, E e) →
    E (.call f distinct args)
  callStar {f : String} : P f → E (.callStar f)

theorem Closed.named {P : String → Prop} : Closed P (Expr.Named P) where
  var h := h
  property he hk := ⟨he, hk⟩
  null := trivial
  boolean := trivial
  integer := trivial
  number := trivial
  text := trivial
  list h := Expr.namedAll_iff.mpr h
  map _ h := Expr.namedEntries_iff.mpr h
  not h := h
  negate h := h
  binary hl hr := ⟨hl, hr⟩
  compare hl hr := ⟨hl, hr⟩
  nullTest h := h
  call hf h := ⟨hf, Expr.namedAll_iff.mpr h⟩
  callStar h := h

/-- A set clause has an item. -/
def Action.Formed : Action → Prop
  | .set items => items ≠ []
  | .create _ => True

/-- A clause has a pattern, an item or an action where the grammar wants at least one. -/
def Clause.Formed : Clause → Prop
  | .matching m => m.patterns ≠ []
  | .passing w => w.items ≠ []
  | .returning p => p.items ≠ []
  | .looping l => l.actions ≠ [] ∧ ∀ a ∈ l.actions, a.Formed

end GraphSql.Query

namespace GraphSql.Query.Parser

variable {cs rest : List Char} {text : String}

/-- The text does not go on with a digit. -/
def Ends (rest : List Char) : Prop := ∀ c ∈ rest.head?, Text.isDigit c = false

/-- All results of a parser behind which no digit follows satisfy `P`. -/
def Yields {α : Type} (p : Parser α) (P : α → Prop) : Prop :=
  ∀ cs a rest, p cs = .ok (a, rest) → Ends rest → P a

/-- A parser that accepts no text which starts with a digit. -/
def Marks {α : Type} (p : Parser α) : Prop :=
  ∀ cs a rest, p cs = .ok (a, rest) → Ends cs

/-- A parser that accepts no text which starts with a digit, unless a digit follows what it read. -/
def Passes {α : Type} (p : Parser α) : Prop :=
  ∀ cs a rest, p cs = .ok (a, rest) → Ends rest → Ends cs

/-! ## Parsers that start with a mark -/

theorem not_isLower_of_isDigit {c : Char} (h : Text.isDigit c = true) :
    (foldChar c).isLower = false := by
  rw [Bool.eq_false_iff]
  intro hlower
  have hword : isWordChar c = true := by simp [isWordChar, isNameChar, isNameStart, hlower]
  have hnot := forall_isWordChar (p := fun c => !((foldChar c).isLower && Text.isDigit c))
    (by decide +kernel) (by decide +kernel) hword
  simp [hlower, h] at hnot

theorem scanSymbol_of_isDigit {c : Char} (h : Text.isDigit c = true) :
    scanSymbol (c :: cs) = none := by
  unfold scanSymbol
  refine List.findSome?_eq_none_iff.mpr fun s _ => if_neg ?_
  obtain ⟨d, ds, hs, -, -, hdigit, -⟩ := head_spelling s
  rw [hs, List.isPrefixOf_cons_cons, Bool.and_eq_true, beq_iff_eq]
  rintro ⟨rfl, -⟩
  rw [h] at hdigit
  cases hdigit

/-- No mark starts with a digit. -/
theorem ends_of_scan {r : Token × List Char} (h : Token.scan .mark cs = some r) : Ends cs := by
  cases cs with
  | nil => simp [Ends]
  | cons c cs =>
    intro d hd
    obtain rfl : c = d := by simpa using hd
    rw [Bool.eq_false_iff]
    intro hdigit
    have hspace : isSpace c = false := by
      rw [Bool.eq_false_iff]
      intro hspace
      rw [not_isDigit_of_isSpace hspace] at hdigit
      cases hdigit
    have hkeyword : scanKeyword (c :: cs) = none :=
      scanKeyword_eq_none (by simp [not_isLower_of_isDigit hdigit])
    rw [scan_mark hspace, scanMark, hkeyword, scanSymbol_of_isDigit hdigit] at h
    cases h

section Marks

variable {α β : Type} {p : Parser α} {f : α → Parser β}

theorem Marks.fail : Marks (fail : Parser α) := by
  intro cs a rest h
  cases h

theorem Marks.bind (hp : Marks p) : Marks (p >>= f) := by
  intro cs b rest h
  obtain ⟨⟨a, cs'⟩, ha, -⟩ := Except.bind_eq_ok.mp h
  exact hp cs a cs' ha

theorem Marks.passes (hp : Marks p) : Passes p := fun cs a rest h _ => hp cs a rest h

theorem Marks.then (hp : Marks p) : Passes (p >>= f) := hp.bind.passes

theorem Passes.pure {a : α} : Passes (pure a) := by
  intro cs b rest h hrest
  have : (a, cs) = (b, rest) := Except.pure_eq_ok.mp h
  cases this
  exact hrest

theorem marks_peek : Marks (peek .mark) := by
  intro cs t rest h
  unfold peek at h
  split at h
  · exact ends_of_scan ‹_›
  · cases h

theorem marks_next : Marks (next .mark) := by
  intro cs t rest h
  unfold next at h
  split at h
  · exact ends_of_scan ‹_›
  · cases h

theorem marks_accept {t : Token} : Marks (accept .mark t) := marks_peek.bind

theorem marks_expect {t : Token} : Marks (expect .mark t) := marks_next.bind

theorem marks_after {t : Token} : Marks (after .mark t p) := marks_accept.bind

theorem Marks.repeatUpTo {step : Parser (Option α)} (h : Marks step) :
    ∀ fuel, Marks (repeatUpTo step fuel)
  | 0 => Marks.fail
  | _ + 1 => h.bind

theorem Marks.many {step : Parser (Option α)} (h : Marks step) : Marks (many step) :=
  fun cs => h.repeatUpTo (cs.length + 1) cs

end Marks

/-! ## Rules -/

section Rules

variable {α β : Type} {p : Parser α} {P : α → Prop} {Q : β → Prop}

theorem Yields.any (p : Parser α) : Yields p fun _ => True := fun _ _ _ _ _ => trivial

theorem Yields.pure {a : α} (h : P a) : Yields (pure a) P := by
  intro cs b rest he _
  have : (a, cs) = (b, rest) := Except.pure_eq_ok.mp he
  cases this
  exact h

/-- What is known of the first result can be used if the second parser does not start at a digit. -/
theorem Yields.bind {f : α → Parser β} (hp : Yields p P)
    (hf : ∀ a, (Passes (f a) → P a) → Yields (f a) Q) : Yields (p >>= f) Q := by
  intro cs b rest he hrest
  obtain ⟨⟨a, cs'⟩, ha, he⟩ := Except.bind_eq_ok.mp he
  exact hf a (fun hpass => hp cs a cs' ha (hpass cs' b rest he hrest)) cs' b rest he hrest

theorem Yields.throw {e : SyntaxError} : Yields (throw e : Parser α) P := by
  intro cs a rest he
  cases he

theorem Yields.fail : Yields (fail : Parser α) P := Yields.throw

theorem Yields.fail_bind {f : α → Parser β} : Yields (Parser.fail >>= f) Q := by
  intro cs b rest he
  cases he

/-- The result of the first of two parsers does not matter. -/
theorem Yields.then {f : α → Parser β} (hf : ∀ a, Yields (f a) Q) : Yields (p >>= f) Q :=
  (Yields.any p).bind fun a _ => hf a

theorem Yields.repeatUpTo {step : Parser (Option α)} (h : Yields step fun o => ∀ a ∈ o, P a)
    (hstep : Marks step) : ∀ fuel, Yields (repeatUpTo step fuel) fun as => ∀ a ∈ as, P a
  | 0 => Yields.fail
  | fuel + 1 => by
    refine h.bind fun o ho => ?_
    cases o with
    | none => exact Yields.pure (by simp)
    | some a =>
      refine (Yields.repeatUpTo h hstep fuel).bind fun as has => Yields.pure ?_
      intro b hb
      rcases List.mem_cons.mp hb with rfl | hb
      · exact ho (hstep.repeatUpTo fuel).then b rfl
      · exact has Passes.pure b hb

theorem Yields.many {step : Parser (Option α)} (h : Yields step fun o => ∀ a ∈ o, P a)
    (hstep : Marks step) : Yields (many step) fun as => ∀ a ∈ as, P a :=
  fun cs => Yields.repeatUpTo h hstep (cs.length + 1) cs

theorem Yields.after (expecting : Expecting) (t : Token) (h : Yields p P) :
    Yields (after expecting t p) fun o => ∀ a ∈ o, P a := by
  refine Yields.then fun taken => ?_
  cases taken with
  | false => exact Yields.pure (by simp)
  | true => exact h.bind fun a ha => Yields.pure (by simpa using ha Passes.pure)

theorem Yields.commaSeparated (h : Yields p P) :
    Yields (commaSeparated p) fun as => as ≠ [] ∧ ∀ a ∈ as, P a := by
  refine h.bind fun a ha => ((h.after _ _).many marks_after).bind fun as has =>
    Yields.pure ⟨by simp, ?_⟩
  intro b hb
  rcases List.mem_cons.mp hb with rfl | hb
  · exact ha marks_after.many.then
  · exact has Passes.pure b hb

end Rules

/-! ## Names -/

/-- A text that is read as a name, without a digit right behind it. -/
def IsName (text : String) : Prop :=
  ∃ cs word rest, scanName cs = some (word, rest) ∧ Ends rest ∧ text = String.ofList word

theorem not_name_of_scanMark : scanMark cs ≠ some (.name text, rest) := by
  unfold scanMark
  split
  · simp
  · cases scanSymbol cs <;> simp

theorem not_stop_of_scanMark : scanMark cs ≠ some (.stop, rest) := by
  unfold scanMark
  split
  · simp
  · cases scanSymbol cs <;> simp

theorem not_name_of_scanNumber : scanNumber cs ≠ some (.name text, rest) := by
  unfold scanNumber
  dsimp only
  split
  · simp
  · split
    · split <;> simp
    · simp

theorem isName_of_scanOperand (h : scanOperand cs = some (.name text, rest)) (hrest : Ends rest) :
    IsName text := by
  unfold scanOperand at h
  split at h
  · rename_i r hr
    rw [h] at hr
    exact absurd hr not_name_of_scanNumber
  · split at h
    · rename_i word after hw
      simp only [operandName, Option.some.injEq, Prod.mk.injEq] at h
      obtain ⟨htext, rfl⟩ := h
      refine ⟨cs, word, after, hw, hrest, ?_⟩
      split at htext <;> simp_all
    · split at h
      · obtain ⟨_, -, h⟩ := Option.map_eq_some_iff.mp h
        simp at h
      · obtain ⟨_, -, h⟩ := Option.map_eq_some_iff.mp h
        simp at h
      · exact absurd h not_name_of_scanMark

theorem isName_of_scan {expecting : Expecting}
    (h : Token.scan expecting cs = some (.name text, rest)) (hrest : Ends rest) : IsName text := by
  unfold Token.scan at h
  split at h
  · simp at h
  · cases expecting with
    | operand => exact isName_of_scanOperand h hrest
    | mark => exact absurd h not_name_of_scanMark
    | name =>
      dsimp only at h
      split at h
      · rename_i word after hw
        simp only [Option.some.injEq, Prod.mk.injEq, Token.name.injEq] at h
        obtain ⟨htext, rfl⟩ := h
        exact ⟨_, word, after, hw, hrest, htext.symm⟩
      · exact absurd h not_name_of_scanMark

/-- A name token is a name. -/
theorem yields_next (expecting : Expecting) :
    Yields (next expecting) fun t => ∀ text, t = .name text → IsName text := by
  rintro cs t rest h hrest text rfl
  unfold next at h
  split at h
  · rename_i r hr
    cases h
    exact isName_of_scan hr hrest
  · simp at h

section Grammar

variable {P : String → Prop} {E : Expr → Prop} (hP : ∀ text, IsName text → P text)
  (hE : Closed P E)

include hP

theorem yields_name : Yields name P := by
  refine (yields_next .name).bind fun t ht => ?_
  split
  · exact Yields.pure (hP _ (ht Passes.pure _ rfl))
  · exact Yields.fail

theorem yields_name? : Yields name? fun o => ∀ x ∈ o, P x := by
  refine Yields.then fun t => ?_
  split
  · exact (yields_name hP).bind fun x hx => Yields.pure (by simpa using hx Passes.pure)
  · exact Yields.pure (by simp)

/-! ## Expressions -/

include hE

omit hP in
theorem yields_integerLiteral (digits : List Char) : Yields (integerLiteral digits) E := by
  unfold integerLiteral
  split
  · exact Yields.pure hE.integer
  · refine Yields.then fun t => ?_
    split
    · exact Yields.throw
    · exact Yields.fail

section Levels

variable {nested : Parser Expr} (hn : Yields nested E)

include hn

omit hP hE in
theorem yields_arguments (close : Symbol) :
    Yields (arguments nested close) fun es => ∀ e ∈ es, E e := by
  refine Yields.then fun closed => ?_
  cases closed with
  | true => exact Yields.pure (by simp)
  | false =>
    exact hn.commaSeparated.bind fun es hes =>
      Yields.then fun _ => Yields.pure (hes marks_expect.then).2

omit hP in
theorem yields_callArguments {f : String} (hf : P f) : Yields (callArguments nested f) E := by
  refine Yields.then fun t => ?_
  split
  · exact Yields.then fun _ => Yields.then fun _ => Yields.pure (hE.callStar hf)
  · exact Yields.then fun _ =>
      (yields_arguments hn _).bind fun es hes => Yields.pure (hE.call hf (hes Passes.pure))
  · exact (yields_arguments hn _).bind fun es hes => Yields.pure (hE.call hf (hes Passes.pure))

omit hE in
theorem yields_mapEntry : Yields (mapEntry nested) fun p => P p.1 ∧ E p.2 :=
  (yields_name hP).bind fun _ hk => Yields.then fun _ => hn.bind fun _ he =>
    Yields.pure ⟨hk marks_expect.then, he Passes.pure⟩

theorem yields_mapEntries : Yields (mapEntries nested) fun entries => E (.map entries) := by
  refine Yields.then fun closed => ?_
  cases closed with
  | true => exact Yields.pure (hE.map (by simp) (by simp))
  | false =>
    refine (yields_mapEntry hP hn).commaSeparated.bind fun es hes =>
      Yields.then fun _ => Yields.pure (hE.map (nodup_lastValues es) ?_)
    exact fun p hp => (hes marks_expect.then).2 p (mem_of_mem_lastValues hp)

theorem yields_atom : Yields (atom nested) E := by
  refine (yields_next .operand).bind fun t ht => ?_
  split
  · exact yields_integerLiteral hE _
  · exact Yields.pure hE.number
  · exact Yields.pure hE.text
  · exact Yields.pure hE.boolean
  · exact Yields.pure hE.boolean
  · exact Yields.pure hE.null
  · have hname := hP _ (ht marks_accept.then _ rfl)
    refine Yields.then fun called => ?_
    cases called with
    | true => exact yields_callArguments hE hn hname
    | false => exact Yields.pure (hE.var hname)
  · exact (yields_arguments hn _).bind fun es hes => Yields.pure (hE.list (hes Passes.pure))
  · exact (yields_mapEntries hP hE hn).bind fun es hes => Yields.pure (hes Passes.pure)
  · exact hn.bind fun e he => Yields.then fun _ => Yields.pure (he marks_expect.then)
  · exact Yields.fail

theorem yields_propertyAccess : Yields (propertyAccess nested) E := by
  refine (yields_atom hP hE hn).bind fun e he =>
    (((yields_name hP).after _ _).many marks_after).bind fun keys hkeys => Yields.pure ?_
  exact List.foldlRecOn keys Expr.property (he marks_after.many.then)
    fun e he k hk => hE.property he (hkeys Passes.pure k hk)

theorem yields_signed : Yields (signed nested) E := by
  refine Yields.then fun signs => (yields_propertyAccess hP hE hn).bind fun e he => Yields.pure ?_
  exact List.foldrRecOn signs _ (he Passes.pure) fun e he _ _ => hE.negate he

omit hP in
theorem yields_leftChain (operator : Token → Option BinaryOp) :
    Yields (leftChain operator nested) E := by
  refine hn.bind fun e he => (Yields.many (P := fun p : BinaryOp × Expr => E p.2) ?_
    marks_peek.bind).bind fun rest hrest => Yields.pure ?_
  · refine Yields.then fun t => ?_
    split
    · exact Yields.pure (by simp)
    · exact Yields.then fun _ => hn.bind fun e he => Yields.pure (by simpa using he Passes.pure)
  · exact List.foldlRecOn rest _ (he marks_peek.bind.many.then)
      fun e he p hp => hE.binary he (hrest Passes.pure p hp)

theorem yields_sum : Yields (sum nested) E :=
  yields_leftChain hE (yields_leftChain hE (yields_signed hP hE hn) productOp?) sumOp?

theorem yields_comparison : Yields (comparison nested) E := by
  have hs := yields_sum hP hE hn
  refine hs.bind fun left hl => Yields.then fun t => ?_
  replace hl := hl marks_peek.then
  split
  · exact Yields.then fun _ =>
      hs.bind fun right hr => Yields.pure (hE.compare hl (hr Passes.pure))
  · exact Yields.then fun _ => Yields.then fun _ =>
      hs.bind fun right hr => Yields.pure (hE.compare hl (hr Passes.pure))
  · refine Yields.then fun tested => ?_
    cases tested with
    | true => exact Yields.then fun _ => Yields.then fun _ => Yields.pure (hE.nullTest hl)
    | false => exact Yields.pure hl

theorem yields_negation : Yields (negation nested) E := by
  refine Yields.then fun nots => (yields_comparison hP hE hn).bind fun e he => Yields.pure ?_
  exact List.foldrRecOn nots _ (he Passes.pure) fun e he _ _ => hE.not he

theorem yields_disjunction : Yields (disjunction nested) E :=
  yields_leftChain hE (yields_leftChain hE (yields_negation hP hE hn) conjunctionOp?) disjunctionOp?

end Levels

theorem yields_expressionAt : ∀ depth, Yields (expressionAt depth) E
  | 0 => Yields.fail
  | depth + 1 => yields_disjunction hP hE (yields_expressionAt depth)

theorem yields_expression : Yields expression E :=
  fun cs => yields_expressionAt hP hE (cs.length + 1) cs

/-! ## Patterns -/

theorem yields_properties? : Yields properties? fun o => ∀ entries ∈ o, E (.map entries) :=
  (yields_mapEntries hP hE (yields_expression hP hE)).after _ _

theorem yields_nodePattern : Yields nodePattern (NodePattern.Holds P E) :=
  Yields.then fun _ => (yields_name? hP).bind fun _ hname =>
    (((yields_name hP).after _ _).many marks_after).bind fun _ hlabels =>
      (yields_properties? hP hE).bind fun _ hproperties =>
        Yields.then fun _ => Yields.pure
          ⟨hname marks_after.many.then, hlabels marks_after.then, hproperties marks_expect.then⟩

omit hE in
theorem yields_relationshipTypes : Yields relationshipTypes fun ts => ∀ t ∈ ts, P t := by
  refine ((yields_name hP).after _ _).bind fun first hfirst => ?_
  cases first with
  | none => exact Yields.pure (by simp)
  | some t =>
    have hfurther : Yields furtherType P := Yields.then fun _ => (yields_name hP)
    refine ((hfurther.after _ _).many marks_after).bind fun rest hrest => Yields.pure ?_
    intro u hu
    rcases List.mem_cons.mp hu with rfl | hu
    · exact hfirst marks_after.many.then u rfl
    · exact hrest Passes.pure u hu

theorem yields_relationshipDetail :
    Yields relationshipDetail (RelationshipPattern.Holds P E) :=
  (yields_name? hP).bind fun _ hname => (yields_relationshipTypes hP).bind fun _ htypes =>
    (yields_properties? hP hE).bind fun _ hproperties =>
      Yields.then fun _ => Yields.pure
        ⟨hname marks_after.bind.then, htypes marks_after.then, hproperties marks_expect.then⟩

theorem yields_relationshipPattern :
    Yields relationshipPattern (RelationshipPattern.Holds P E) := by
  refine Yields.then fun left => Yields.then fun _ =>
    ((yields_relationshipDetail hP hE).after _ _).bind fun detail hdetail =>
      Yields.then fun _ => Yields.then fun right => Yields.pure ?_
  cases detail with
  | none => exact ⟨by simp, by simp, by simp⟩
  | some r =>
    have hr := hdetail marks_expect.then r rfl
    exact ⟨hr.name, hr.types, hr.properties⟩

theorem yields_hop? : Yields hop? fun o => ∀ h ∈ o, h.Holds P E := by
  have hhop : Yields (do
      let relationship ← relationshipPattern
      let node ← nodePattern
      return some ({ relationship, node } : Hop)) fun o => ∀ h ∈ o, h.Holds P E :=
    (yields_relationshipPattern hP hE).bind fun r hr =>
      (yields_nodePattern hP hE).bind fun n hnode =>
        Yields.pure (by simpa using Hop.Holds.mk (hr marks_expect.bind.then) (hnode Passes.pure))
  refine Yields.then fun t => ?_
  split
  · exact hhop
  · exact hhop
  · exact Yields.pure (by simp)

theorem yields_pattern : Yields pattern (Pattern.Holds P E) :=
  (yields_nodePattern hP hE).bind fun _ hfirst =>
    ((yields_hop? hP hE).many marks_peek.bind).bind fun _ hhops =>
      Yields.pure ⟨hfirst marks_peek.bind.many.then, hhops Passes.pure⟩

/-! ## Clauses -/

theorem yields_returnItem : Yields returnItem (ReturnItem.Holds P E) :=
  (yields_expression hP hE).bind fun _ he => ((yields_name hP).after _ _).bind fun _ hname =>
    Yields.pure ⟨he marks_after.then, hname Passes.pure⟩

theorem yields_sortKey : Yields sortKey fun k => E k.expr := by
  refine (yields_expression hP hE).bind fun e he => Yields.then fun t => ?_
  replace he := he marks_peek.then
  split
  · exact Yields.then fun _ => Yields.pure he
  · exact Yields.then fun _ => Yields.pure he
  · exact Yields.then fun _ => Yields.pure he
  · exact Yields.then fun _ => Yields.pure he
  · exact Yields.pure he

theorem yields_sortKeys : Yields sortKeys fun ks => ks ≠ [] ∧ ∀ k ∈ ks, E k.expr :=
  Yields.then fun _ => (yields_sortKey hP hE).commaSeparated

theorem yields_projection (conditionAllowed : Bool) :
    Yields (projection conditionAllowed) fun w => w.Holds P E ∧ w.items ≠ [] := by
  refine Yields.then fun distinct =>
    (yields_returnItem hP hE).commaSeparated.bind fun items hitems => ?_
  replace hitems := hitems <| by
    cases conditionAllowed with
    | true => exact marks_after.then
    | false =>
      rw [if_neg Bool.false_ne_true, pure_bind]
      exact marks_after.then
  have hrest (condition : Option Expr) (hcondition : ∀ e ∈ condition, E e) :
      Yields (do
        let orderBy ← after .mark (.keyword .ORDER) sortKeys
        let skip ← after .mark (.keyword .SKIP) expression
        let limit ← after .mark (.keyword .LIMIT) expression
        return ({ items, distinct, orderBy := orderBy.getD [], skip, limit, condition } :
          WithProjection)) fun w => w.Holds P E ∧ w.items ≠ [] := by
    refine ((yields_sortKeys hP hE).after _ _).bind fun orderBy horder =>
      ((yields_expression hP hE).after _ _).bind fun skip hskip =>
        ((yields_expression hP hE).after _ _).bind fun limit hlimit => Yields.pure ?_
    refine ⟨⟨⟨hitems.2, ?_, hskip marks_after.then, hlimit Passes.pure⟩, hcondition⟩, hitems.1⟩
    cases orderBy with
    | none => simp
    | some ks => exact (horder marks_after.then ks rfl).2
  cases conditionAllowed with
  | true =>
    exact ((yields_expression hP hE).after _ _).bind
      fun condition hcondition => hrest condition (hcondition marks_after.then)
  | false => exact hrest none (by simp)

theorem yields_matching : Yields matching fun m => m.Holds P E ∧ m.patterns ≠ [] :=
  (yields_pattern hP hE).commaSeparated.bind fun _ hpatterns =>
    ((yields_expression hP hE).after _ _).bind fun _ hcondition =>
      Yields.pure ⟨⟨(hpatterns marks_after.then).2, hcondition Passes.pure⟩,
        (hpatterns marks_after.then).1⟩

theorem yields_assignment : Yields assignment (Assignment.Holds P E) :=
  (yields_name hP).bind fun _ hname => Yields.then fun _ => (yields_name hP).bind fun _ hkey =>
    Yields.then fun _ => (yields_expression hP hE).bind fun _ hvalue =>
      Yields.pure ⟨hname marks_expect.then, hkey marks_expect.then, hvalue Passes.pure⟩

theorem yields_action? : Yields action? fun o => ∀ a ∈ o, a.Holds P E ∧ a.Formed := by
  refine Yields.then fun t => ?_
  split
  · exact Yields.then fun _ => (yields_assignment hP hE).commaSeparated.bind fun items hitems =>
      Yields.pure fun a ha => by
        obtain rfl : Action.set items = a := by simpa using ha
        exact (hitems Passes.pure).symm
  · exact Yields.then fun _ => (yields_pattern hP hE).bind fun p hp =>
      Yields.pure fun a ha => by
        obtain rfl : Action.create p = a := by simpa using ha
        exact ⟨hp Passes.pure, trivial⟩
  · exact Yields.pure (by simp)

theorem yields_loop : Yields loop fun l =>
    l.Holds P E ∧ l.actions ≠ [] ∧ ∀ a ∈ l.actions, a.Formed := by
  refine Yields.then fun _ => (yields_name hP).bind fun element hname => Yields.then fun _ =>
    (yields_expression hP hE).bind fun source hsource => Yields.then fun _ =>
      ((yields_action? hP hE).many marks_peek.bind).bind fun actions hactions => ?_
  replace hactions := hactions (by split <;> [exact Marks.fail.then; exact marks_expect.then])
  split
  · exact Yields.fail_bind
  · rename_i hempty
    refine Yields.then fun _ => Yields.pure ⟨⟨hname marks_expect.then, hsource marks_expect.then,
      fun a ha => (hactions a ha).1⟩, ?_⟩
    exact ⟨by simpa using hempty, fun a ha => (hactions a ha).2⟩

theorem yields_clause? : Yields clause? fun o => ∀ c ∈ o, c.Holds P E ∧ c.Formed := by
  refine Yields.then fun t => ?_
  split
  · exact Yields.then fun _ => (yields_matching hP hE).bind fun m hm => Yields.pure fun c hc => by
      obtain rfl : Clause.matching m = c := by simpa using hc
      exact hm Passes.pure
  · exact Yields.then fun _ => (yields_projection hP hE true).bind fun w hw =>
      Yields.pure fun c hc => by
        obtain rfl : Clause.passing w = c := by simpa using hc
        exact hw Passes.pure
  · exact Yields.then fun _ => (yields_projection hP hE false).bind fun w hw =>
      Yields.pure fun c hc => by
        obtain rfl : Clause.returning w.toProjection = c := by simpa using hc
        exact ⟨(hw Passes.pure).1.projection, (hw Passes.pure).2⟩
  · exact Yields.then fun _ => (yields_loop hP hE).bind fun l hl => Yields.pure fun c hc => by
      obtain rfl : Clause.looping l = c := by simpa using hc
      exact hl Passes.pure
  · exact Yields.pure (by simp)

theorem yields_query : Yields query fun q => q ≠ [] ∧ ∀ c ∈ q, c.Holds P E ∧ c.Formed := by
  refine ((yields_clause? hP hE).many marks_peek.bind).bind fun clauses hclauses => ?_
  replace hclauses := hclauses (by split <;> [exact Marks.fail.then; exact marks_accept.then])
  split
  · exact Yields.fail_bind
  · rename_i hempty
    exact Yields.then fun _ => Yields.then fun _ => Yields.pure ⟨by simpa using hempty, hclauses⟩

end Grammar

/-- The end of a text leaves nothing behind it. -/
theorem eq_nil_of_expect (h : expect .mark .stop cs = .ok ((), rest)) : rest = [] := by
  obtain ⟨⟨t, cs'⟩, ht, h⟩ := Except.bind_eq_ok.mp h
  unfold next at ht
  split at ht
  · rename_i r hr
    cases ht
    dsimp only at h
    split at h
    · cases h
    · rename_i hstop
      obtain rfl : t = .stop := by simpa using hstop
      obtain ⟨rfl⟩ : cs' = rest := by
        have : ((), cs') = ((), rest) := Except.pure_eq_ok.mp h
        cases this
        rfl
      unfold Token.scan at hr
      split at hr
      · cases hr
        rfl
      · exact absurd hr not_stop_of_scanMark
  · cases ht

theorem eq_nil_of_query {q : Query} (h : query cs = .ok (q, rest)) : rest = [] := by
  obtain ⟨⟨clauses, cs₁⟩, -, h⟩ := Except.bind_eq_ok.mp h
  dsimp only at h
  split at h
  · cases h
  · obtain ⟨⟨_, cs₂⟩, -, h⟩ := Except.bind_eq_ok.mp h
    obtain ⟨⟨_, cs₃⟩, hstop, h⟩ := Except.bind_eq_ok.mp h
    have : (clauses, cs₃) = (q, rest) := Except.pure_eq_ok.mp h
    cases this
    exact eq_nil_of_expect hstop

end GraphSql.Query.Parser

namespace GraphSql.Query

/-- **A query that was read has a clause, each clause has the parts that it needs, and whatever the
grammar keeps holds of its names and expressions.** -/
theorem holds_of_parse {P : String → Prop} {E : Expr → Prop} (hP : ∀ x, Parser.IsName x → P x)
    (hE : Closed P E) {text : String} {q : Query} (h : parse text = .ok q) :
    q ≠ [] ∧ ∀ c ∈ q, c.Holds P E ∧ c.Formed := by
  obtain ⟨⟨q', rest⟩, hq, rfl⟩ := Except.map_eq_ok.mp h
  obtain rfl := Parser.eq_nil_of_query hq
  exact Parser.yields_query hP hE _ q' [] hq (by simp [Parser.Ends])

/-- The names of a query that was read are names of its text. -/
theorem named_of_parse {P : String → Prop} (hP : ∀ x, Parser.IsName x → P x) {text : String}
    {q : Query} (h : parse text = .ok q) : ∀ c ∈ q, c.Named P :=
  fun c hc => ((holds_of_parse hP Closed.named h).2 c hc).1

theorem wordy_of_isName {text : String} (h : Parser.IsName text) : Wordy text := by
  obtain ⟨cs, word, rest, hscan, -, rfl⟩ := h
  refine wordy_ofList fun c hc => isWordChar_of_isNameChar ?_
  unfold scanName at hscan
  split at hscan
  · simp at hscan
  · dsimp only at hscan
    split_ifs at hscan
    cases hscan
    exact List.all_eq_true.mp List.all_takeWhile c hc

end GraphSql.Query
