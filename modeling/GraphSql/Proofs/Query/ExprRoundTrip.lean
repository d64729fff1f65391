import GraphSql.Proofs.Keyed
import GraphSql.Proofs.Query.Reads
import GraphSql.Query.Parser.Expr

/-!
# Reading printed expressions

The parser of each level reads what is printed for that level (`ReadsLevel`).  The levels differ in how
they put operands together: to the left (`ReadsLevel.chain`), by signs before an operand
(`ReadsLevel.prefixed`), by one comparison, or by brackets.  An operand must be followed by nothing that
would make it longer: `Token.Ends` says which tokens can follow a level, and `Token.Begins` with which
tokens a level starts.  Since brackets make the text shorter, the levels are joined by induction on
the depth (`reads_expression`).
-/

namespace GraphSql.Query

variable {e : Expr}

/-! ## First and following tokens -/

/-- The level of what a token goes on with behind an operand. -/
def Token.joins : Token → Option Nat
  | .keyword k =>
    match k with
    | .OR => some 0
    | .AND => some 1
    | .IN | .CONTAINS | .STARTS | .ENDS | .IS => some 3
    | _ => none
  | .symbol s =>
    match s with
    | .equal | .notEqual | .bangEqual | .less | .greater | .lessEqual | .greaterEqual => some 3
    | .plus | .minus => some 4
    | .star | .slash | .percent => some 5
    | .dot => some 7
    | .openParen => some 8
    | _ => none
  | _ => none

/-- Marks that end an operand of the given level. -/
def Token.Ends (level : Nat) (t : Token) : Prop := t.Fits .mark ∧ ∀ b ∈ t.joins, b < level

/-- Tokens that an expression of at least the given level starts with. -/
def Token.Begins (level : Nat) : Token → Prop
  | .keyword k =>
    match k with
    | .NOT => level ≤ 2
    | .TRUE | .FALSE | .NULL => True
    | _ => False
  | .symbol s =>
    match s with
    | .minus => level ≤ 6
    | .openParen | .openBracket | .openBrace => True
    | _ => False
  | .decimal _ _ => False
  | .stop => False
  | t => t.Fits .operand

theorem Token.Ends.mono {m n : Nat} (h : m ≤ n) (t : Token) (ht : t.Ends m) : t.Ends n :=
  ⟨ht.1, fun b hb => lt_of_lt_of_le (ht.2 b hb) h⟩

theorem Token.Ends.fits {level : Nat} (t : Token) (ht : t.Ends level) : t.Fits .mark := ht.1

theorem Token.Begins.mono {m n : Nat} (h : m ≤ n) (t : Token) (ht : t.Begins n) : t.Begins m := by
  unfold Token.Begins at ht ⊢
  split at ht
  · split at ht
    · exact h.trans ht
    all_goals trivial
  · split at ht
    · exact h.trans ht
    all_goals trivial
  all_goals trivial

theorem Token.Begins.fits {level : Nat} (t : Token) (ht : t.Begins level) : t.Fits .operand := by
  cases t with
  | keyword k => cases k <;> first | exact ht.elim | simp [Token.Fits, Keyword.reserved]
  | symbol s => trivial
  | name x => exact ht
  | integer digits => exact ht
  | decimal whole fraction => exact ht
  | quoted body => exact ht
  | stop => exact ht

/-- What follows a complete operand is not what would go on with it. -/
theorem Front.ne_of_joins {level b : Nat} {t : Token} {us : List Token}
    (h : Front (Token.Ends level) us) (ht : t.joins = some b) (hb : level ≤ b) : front us ≠ t := by
  cases us with
  | nil =>
    rintro rfl
    cases ht
  | cons u us =>
    rintro rfl
    have := (h u rfl).2 b ht
    omega

/-! ## Printable expressions -/

/-- No key of a map stands in it twice. -/
def Expr.KeysOnce : Expr → Prop
  | .map entries => (entries.map Prod.fst).Nodup
  | _ => True

/-- Plain expressions whose maps have each key once. -/
def Expr.Printable (e : Expr) : Prop := e.Every fun s => s.PlainTop ∧ s.KeysOnce

open Printing

theorem operand_of_le {required level : Nat} {l : Language Token} (h : required ≤ level) :
    operand required level l = l := if_pos h

theorem starts_operand {required level : Nat} {l : Language Token} {ts : List Token}
    (hl : ∀ ts ∈ l, Starts (Token.Begins level) ts) (hts : ts ∈ operand required level l) :
    Starts (Token.Begins required) ts := by
  unfold operand at hts
  split at hts
  · rename_i h
    exact (hl ts hts).mono (Token.Begins.mono h)
  · rw [mul_assoc] at hts
    obtain ⟨_, rfl, us, -, rfl⟩ := Language.mem_mul.mp hts
    exact Starts.cons trivial

/-- **A printed expression starts with a token of its level.** -/
theorem Expr.Printable.starts (he : e.Printable) :
    ∀ ts ∈ e.printings, Starts (Token.Begins e.level) ts := by
  induction he with
  | @mk e hself _ ih =>
    intro ts hts
    have hoperand {required : Nat} {c : Expr} {rest : Language Token} (hc : c ∈ e.children)
        (hlevel : e.level ≤ required)
        (hmem : ts ∈ operand required c.level c.printings * rest) :
        Starts (Token.Begins e.level) ts := by
      obtain ⟨us, hus, vs, -, rfl⟩ := Language.mem_mul.mp hmem
      exact (starts_operand (ih c hc) hus).append.mono (Token.Begins.mono hlevel)
    cases e with
    | var x =>
      obtain rfl := hts
      exact Starts.cons hself.1
    | property c key =>
      rw [Expr.printings, mul_assoc] at hts
      exact hoperand List.mem_cons_self le_rfl hts
    | null =>
      obtain rfl := hts
      exact Starts.cons trivial
    | boolean b =>
      obtain rfl := hts
      cases b <;> exact Starts.cons trivial
    | integer n =>
      obtain rfl := hts
      exact Starts.cons fun c hc => Nat.isDigit_of_mem_toDigits (by decide) (by decide) hc
    | number x => exact hts.elim
    | text s =>
      obtain rfl := hts
      exact Starts.cons ⟨s.toList, hself.1, rfl⟩
    | list es =>
      rw [Expr.printings, mul_assoc] at hts
      obtain ⟨_, rfl, us, -, rfl⟩ := Language.mem_mul.mp hts
      exact Starts.cons trivial
    | map entries =>
      rw [Expr.printings, mul_assoc] at hts
      obtain ⟨_, rfl, us, -, rfl⟩ := Language.mem_mul.mp hts
      exact Starts.cons trivial
    | not c =>
      obtain ⟨_, rfl, us, -, rfl⟩ := Language.mem_mul.mp hts
      exact Starts.cons le_rfl
    | negate c =>
      obtain ⟨_, rfl, us, -, rfl⟩ := Language.mem_mul.mp hts
      exact Starts.cons le_rfl
    | binary op l r =>
      rw [Expr.printings, mul_assoc] at hts
      exact hoperand List.mem_cons_self le_rfl hts
    | compare op l r =>
      rw [Expr.printings, mul_assoc] at hts
      exact hoperand List.mem_cons_self (Nat.le_succ 3) hts
    | nullTest negated c =>
      rw [Expr.printings, mul_assoc, mul_assoc] at hts
      exact hoperand List.mem_cons_self (Nat.le_succ 3) hts
    | call f distinct args =>
      rw [Expr.printings, mul_assoc, mul_assoc, mul_assoc] at hts
      obtain ⟨_, rfl, us, -, rfl⟩ := Language.mem_mul.mp hts
      exact Starts.cons hself.1
    | callStar f =>
      rw [Expr.printings, mul_assoc, mul_assoc] at hts
      obtain ⟨_, rfl, us, -, rfl⟩ := Language.mem_mul.mp hts
      exact Starts.cons hself.1

namespace Parser

variable {op : Comparison}

/-- The parser reads the expressions that are printed where the given level is asked for. -/
def ReadsLevel (d level : Nat) (p : Parser Expr) : Prop :=
  ∀ e : Expr, e.Printable → ∀ ts ∈ operand level e.level e.printings,
    ∀ us, Front (Token.Ends level) us → Reads d p ts us e

variable {d level : Nat} {p nested : Parser Expr}

/-- Only expressions of a level itself are printed differently one level further down. -/
theorem operand_succ (h : e.level ≠ level) (l : Language Token) :
    operand level e.level l = operand (level + 1) e.level l := by
  unfold operand
  by_cases hle : level ≤ e.level
  · rw [if_pos hle, if_pos (by omega)]
  · rw [if_neg hle, if_neg (by omega)]

/-! ## Levels that group to the left -/

section Chain

variable {α : Type} {g : Expr → α → Expr} {L : α → Language Token} {Q : α → Prop}

/-- An expression that is printed for a level is one of the next level that things are put behind. -/
theorem exists_chain (hgrow : ∀ e : Expr, e.Printable → e.level = level → ∃ c a, e = g c a ∧
      c ∈ e.children ∧ Q a ∧ e.printings = operand level c.level c.printings * L a)
    (he : e.Printable) : ∀ ts ∈ operand level e.level e.printings,
      ∃ (first : Expr) (as : List α), e = as.foldl g first ∧ first.Printable ∧ (∀ a ∈ as, Q a) ∧
        ts ∈ operand (level + 1) first.level first.printings * (as.map L).prod := by
  induction he with
  | @mk e hself hinside ih =>
    intro ts hts
    by_cases hlevel : e.level = level
    · obtain ⟨c, a, rfl, hc, ha, hprint⟩ := hgrow e ⟨hself, hinside⟩ hlevel
      rw [operand_of_le hlevel.ge, hprint] at hts
      obtain ⟨us, hus, vs, hvs, rfl⟩ := Language.mem_mul.mp hts
      obtain ⟨first, as, he, hfirst, has, hmem⟩ := ih c hc us hus
      refine ⟨first, as ++ [a], by rw [List.foldl_append, ← he]; rfl, hfirst, ?_, ?_⟩
      · intro b hb
        rcases List.mem_append.mp hb with hb | hb
        · exact has b hb
        · exact List.mem_singleton.mp hb ▸ ha
      · rw [List.map_append, List.prod_append, List.map_singleton, List.prod_singleton, ← mul_assoc]
        exact Language.append_mem_mul hmem hvs
    · refine ⟨e, [], rfl, ⟨hself, hinside⟩, by simp, ?_⟩
      rw [List.map_nil, List.prod_nil, mul_one, ← operand_succ hlevel]
      exact hts

/-- **A level that groups to the left is read by reading the next one and repeating a step.** -/
theorem ReadsLevel.chain {step : Parser (Option α)} (hp : ReadsLevel d (level + 1) p)
    (hgrow : ∀ e : Expr, e.Printable → e.level = level → ∃ c a, e = g c a ∧
      c ∈ e.children ∧ Q a ∧ e.printings = operand level c.level c.printings * L a)
    (hstep : ∀ a, Q a → ∀ ts ∈ L a, Starts (Token.Ends (level + 1)) ts ∧
      ∀ us, Front (Token.Ends (level + 1)) us → Reads d step ts us (some a))
    (hstop : ∀ us, Front (Token.Ends level) us → Reads d step [] us none) :
    ReadsLevel d level (do
      let e ← p
      let as ← many step
      return as.foldl g e) := by
  intro e he ts hts us hus
  obtain ⟨first, as, rfl, hfirst, has, hmem⟩ := exists_chain hgrow he ts hts
  obtain ⟨ts₁, h₁, ts₂, h₂, rfl⟩ := Language.mem_mul.mp hmem
  have hus' : Front (Token.Ends (level + 1)) us := hus.mono (Token.Ends.mono (Nat.le_succ level))
  have hitem := fun a ha => hstep a (has a ha)
  have hfront : Front (Token.Ends (level + 1)) (ts₂ ++ us) :=
    hus'.prod (fun a ha ts hts => (hitem a ha ts hts).1) h₂
  refine Reads.bind (hp first hfirst ts₁ h₁ _ hfront) ?_
  exact Reads.bind_last (Reads.many hitem hus' (hstop us hus) h₂) (Reads.pure _)

end Chain

/-- Operators of one level, which is all there is of that level. -/
structure OperatorsAt (level : Nat) (operator : Token → Option BinaryOp) : Prop where
  operator_token : ∀ op : BinaryOp, op.level = level → operator op.token = some op
  joins : ∀ t op, operator t = some op → t.joins = some level
  binary : ∀ e : Expr, e.level = level → ∃ op l r, e = .binary op l r

theorem fits_token (op : BinaryOp) : op.token.Fits .mark := by cases op <;> trivial

theorem joins_token (op : BinaryOp) : op.token.joins = some op.level := by cases op <;> rfl

theorem ReadsLevel.leftChain {operator : Token → Option BinaryOp} (h : OperatorsAt level operator)
    (hp : ReadsLevel d (level + 1) p) : ReadsLevel d level (leftChain operator p) := by
  refine ReadsLevel.chain (g := fun e (a : BinaryOp × Expr) => .binary a.1 e a.2)
    (L := fun a => token a.1.token * operand (level + 1) a.2.level a.2.printings)
    (Q := fun a => a.1.level = level ∧ a.2.Printable) hp ?_ ?_ ?_
  · intro e he hlevel
    obtain ⟨op, l, r, rfl⟩ := h.binary e hlevel
    have hop : op.level = level := hlevel
    refine ⟨l, (op, r), rfl, List.mem_cons_self, ⟨hop, he.inside (by simp [Expr.children])⟩, ?_⟩
    rw [Expr.printings, mul_assoc, hop]
  · rintro ⟨op, r⟩ ⟨hop, hr⟩ ts hts
    obtain ⟨_, rfl, vs, hvs, rfl⟩ := Language.mem_mul.mp hts
    have hends : op.token.Ends (level + 1) := by
      refine ⟨fits_token op, ?_⟩
      rw [joins_token, hop]
      intro b hb
      cases hb
      exact Nat.lt_succ_self level
    refine ⟨Starts.cons hends, fun us hus => ?_⟩
    refine Reads.peek_bind_cons hends.1 ?_
    rw [h.operator_token op hop]
    refine Reads.next_bind hends.1 ?_
    exact Reads.bind_last (hp r hr vs hvs us hus) (Reads.pure (some (op, r)))
  · intro us hus
    refine Reads.peek_bind_nil (hus.mono Token.Ends.fits) ?_
    have hnone : operator (front us) = none := by
      cases hoperator : operator (front us) with
      | none => rfl
      | some op => exact absurd rfl (hus.ne_of_joins (h.joins _ op hoperator) le_rfl)
    rw [hnone]
    exact Reads.pure none

/-- At four levels there are operators and nothing else. -/
theorem exists_binary (h : e.level ∈ [0, 1, 4, 5]) : ∃ op l r, e = .binary op l r := by
  cases e with
  | binary op l r => exact ⟨op, l, r, rfl⟩
  | _ => exact absurd h (by simp [Expr.level])

theorem operatorsAt_product : OperatorsAt 5 productOp? where
  operator_token op h := by cases op <;> first | rfl | cases h
  joins t op h := by
    unfold productOp? at h
    split at h <;> first | rfl | cases h
  binary e h := exists_binary (by simp [h])

theorem operatorsAt_sum : OperatorsAt 4 sumOp? where
  operator_token op h := by cases op <;> first | rfl | cases h
  joins t op h := by
    unfold sumOp? at h
    split at h <;> first | rfl | cases h
  binary e h := exists_binary (by simp [h])

theorem operatorsAt_conjunction : OperatorsAt 1 conjunctionOp? where
  operator_token op h := by cases op <;> first | rfl | cases h
  joins t op h := by
    unfold conjunctionOp? at h
    split at h <;> first | rfl | cases h
  binary e h := exists_binary (by simp [h])

theorem operatorsAt_disjunction : OperatorsAt 0 disjunctionOp? where
  operator_token op h := by cases op <;> first | rfl | cases h
  joins t op h := by
    unfold disjunctionOp? at h
    split at h <;> first | rfl | cases h
  binary e h := exists_binary (by simp [h])

theorem ReadsLevel.propertyAccess (hp : ReadsLevel d 8 (atom nested)) :
    ReadsLevel d 7 (propertyAccess nested) := by
  refine ReadsLevel.chain (g := .property) (L := fun key => symbol .dot * word key)
    (Q := PlainName) hp ?_ ?_ ?_
  · intro e he hlevel
    cases e with
    | property c key =>
      exact ⟨c, key, rfl, List.mem_cons_self, he.self.1, by rw [Expr.printings, mul_assoc]⟩
    | binary op l r => cases op <;> cases hlevel
    | _ => cases hlevel
  · intro key hkey ts hts
    obtain ⟨_, rfl, _, rfl, rfl⟩ := Language.mem_mul.mp hts
    exact ⟨Starts.cons ⟨trivial, by decide⟩, fun us _ => Reads.after trivial (Reads.name hkey)⟩
  · intro us hus
    exact Reads.after_none (hus.mono Token.Ends.fits) (hus.ne_of_joins rfl le_rfl)

/-! ## Levels of signs -/

section Prefixed

variable {wrap : Expr → Expr} {t : Token}

/-- An expression that is printed for a level is one of the next level with signs before it. -/
theorem exists_prefixed (hwrap : ∀ e : Expr, e.level = level → ∃ c, e = wrap c ∧ c ∈ e.children ∧
      e.printings = token t * operand level c.level c.printings) (he : e.Printable) :
    ∀ ts ∈ operand level e.level e.printings,
      ∃ (signs : List Unit) (base : Expr), e = signs.foldr (fun _ e => wrap e) base ∧
        base.Printable ∧ ts ∈ (signs.map fun _ => token t).prod *
          operand (level + 1) base.level base.printings := by
  induction he with
  | @mk e hself hinside ih =>
    intro ts hts
    by_cases hlevel : e.level = level
    · obtain ⟨c, rfl, hc, hprint⟩ := hwrap e hlevel
      rw [operand_of_le hlevel.ge, hprint] at hts
      obtain ⟨us, hus, vs, hvs, rfl⟩ := Language.mem_mul.mp hts
      obtain ⟨signs, base, he, hbase, hmem⟩ := ih c hc vs hvs
      refine ⟨() :: signs, base, by rw [List.foldr_cons, ← he], hbase, ?_⟩
      rw [List.map_cons, List.prod_cons, mul_assoc]
      exact Language.append_mem_mul hus hmem
    · refine ⟨[], e, rfl, ⟨hself, hinside⟩, ?_⟩
      rw [List.map_nil, List.prod_nil, one_mul, ← operand_succ hlevel]
      exact hts

/-- **A level of signs is read by repeating the sign and reading the next level.** -/
theorem ReadsLevel.prefixed (hp : ReadsLevel d (level + 1) p)
    (hwrap : ∀ e : Expr, e.level = level → ∃ c, e = wrap c ∧ c ∈ e.children ∧
      e.printings = token t * operand level c.level c.printings)
    (hfits : t.Fits .operand) (hne : ¬ t.Begins (level + 1)) :
    ReadsLevel d level (do
      let signs ← many (mark t)
      let e ← p
      return signs.foldr (fun _ e => wrap e) e) := by
  intro e he ts hts us hus
  obtain ⟨signs, base, rfl, hbase, hmem⟩ := exists_prefixed hwrap he ts hts
  obtain ⟨ts₁, h₁, ts₂, h₂, rfl⟩ := Language.mem_mul.mp hmem
  have hstarts : Starts (Token.Begins (level + 1)) ts₂ := starts_operand hbase.starts h₂
  have hsign : ∀ a ∈ signs, ∀ ts ∈ token t, Starts (fun _ => True) ts ∧
      ∀ vs, Front (fun _ => True) vs → Reads d (mark t) ts vs (some a) := by
    rintro a - _ rfl
    exact ⟨Starts.cons trivial, fun vs _ => Reads.after hfits (Reads.pure a)⟩
  have hstop : Reads d (mark t) [] (ts₂ ++ us) none := by
    refine Reads.after_none (hstarts.front_append.mono Token.Begins.fits) ?_
    intro h
    exact hne (h ▸ hstarts.holds_front us)
  refine Reads.bind (Reads.many hsign (fun _ _ => trivial) hstop h₁) ?_
  exact Reads.bind_last
    (hp base hbase ts₂ h₂ us (hus.mono (Token.Ends.mono (Nat.le_succ level)))) (Reads.pure _)

end Prefixed

theorem ReadsLevel.signed (hp : ReadsLevel d 7 (Parser.propertyAccess nested)) :
    ReadsLevel d 6 (signed nested) := by
  refine ReadsLevel.prefixed hp (fun e hlevel => ?_) trivial (by simp [Token.Begins])
  cases e with
  | negate c => exact ⟨c, rfl, List.mem_cons_self, rfl⟩
  | binary op l r => cases op <;> cases hlevel
  | _ => cases hlevel

theorem ReadsLevel.negation (hp : ReadsLevel d 3 (comparison nested)) :
    ReadsLevel d 2 (negation nested) := by
  refine ReadsLevel.prefixed hp (fun e hlevel => ?_) (by simp [Token.Fits, Keyword.reserved])
    (by simp [Token.Begins])
  cases e with
  | not c => exact ⟨c, rfl, List.mem_cons_self, rfl⟩
  | binary op l r => cases op <;> cases hlevel
  | _ => cases hlevel

/-! ## Comparisons -/

/-- A comparison is written with one token, or with one and `WITH`. -/
theorem mem_printings_comparison {ts : List Token} (h : ts ∈ op.printings) :
    ∃ t, (ts = [t] ∧ comparisonOp? t = some op ∨
        ts = [t, .keyword .WITH] ∧ comparisonOp? t = none ∧ affixOp? t = some op) ∧
      t.joins = some 3 ∧ t.Fits .mark := by
  cases op with
  | ne =>
    rcases h with rfl | rfl
    · exact ⟨_, .inl ⟨rfl, rfl⟩, rfl, trivial⟩
    · exact ⟨_, .inl ⟨rfl, rfl⟩, rfl, trivial⟩
  | startsWith =>
    obtain ⟨_, rfl, _, rfl, rfl⟩ := Language.mem_mul.mp h
    exact ⟨_, .inr ⟨rfl, rfl, rfl⟩, rfl, trivial⟩
  | endsWith =>
    obtain ⟨_, rfl, _, rfl, rfl⟩ := Language.mem_mul.mp h
    exact ⟨_, .inr ⟨rfl, rfl, rfl⟩, rfl, trivial⟩
  | _ =>
    obtain rfl := h
    exact ⟨_, .inl ⟨rfl, rfl⟩, rfl, trivial⟩

theorem joins_of_comparisonOp? {t : Token} (h : comparisonOp? t = some op) : t.joins = some 3 := by
  unfold comparisonOp? at h
  split at h <;> first | rfl | cases h

theorem joins_of_affixOp? {t : Token} (h : affixOp? t = some op) : t.joins = some 3 := by
  unfold affixOp? at h
  split at h <;> first | rfl | cases h

section Comparison

variable (hp : ReadsLevel d 4 (sum nested)) {ts us : List Token}

include hp

theorem reads_compare {l r : Expr} (he : (Expr.compare op l r).Printable)
    (hts : ts ∈ (Expr.compare op l r).printings) (hus : Front (Token.Ends 4) us) :
    Reads d (comparison nested) ts us (.compare op l r) := by
  rw [Expr.printings, mul_assoc] at hts
  obtain ⟨ls, hls, _, ⟨ops, hops, rs, hrs, rfl⟩, rfl⟩ := hts
  obtain ⟨t, hops, hjoins, hfits⟩ := mem_printings_comparison hops
  have hleft := hp l (he.inside List.mem_cons_self) ls hls
  have hright := hp r (he.inside (by simp [Expr.children])) rs hrs us hus
  have hends : t.Ends 4 := ⟨hfits, by rw [hjoins]; decide⟩
  rcases hops with ⟨rfl, hop⟩ | ⟨rfl, hnone, hop⟩
  · refine Reads.bind (hleft _ (Front.cons hends)) (Reads.peek_bind_cons hfits ?_)
    rw [hop]
    exact Reads.next_bind hfits (Reads.bind_last hright (Reads.pure _))
  · refine Reads.bind (hleft _ (Front.cons hends)) (Reads.peek_bind_cons hfits ?_)
    rw [hnone, hop]
    refine Reads.next_bind hfits (Reads.bind_cons (Reads.expect trivial) ?_)
    exact Reads.bind_last hright (Reads.pure _)

theorem reads_nullTest {negated : Bool} {c : Expr} (he : (Expr.nullTest negated c).Printable)
    (hts : ts ∈ (Expr.nullTest negated c).printings) :
    Reads d (comparison nested) ts us (.nullTest negated c) := by
  rw [Expr.printings, mul_assoc, mul_assoc] at hts
  obtain ⟨cs, hcs, _, ⟨_, rfl, _, ⟨nots, hnots, _, rfl, rfl⟩, rfl⟩, rfl⟩ := hts
  have hends : (Token.keyword .IS).Ends 4 := ⟨trivial, by decide⟩
  refine Reads.bind (hp c (he.inside List.mem_cons_self) cs hcs _ (Front.cons hends))
    (Reads.peek_bind (Front.cons trivial) ?_)
  refine Reads.bind_cons (Reads.accept trivial) ?_
  cases negated with
  | true =>
    obtain rfl := hnots
    exact Reads.bind_cons (Reads.accept trivial) (Reads.bind_cons (Reads.expect trivial)
      (Reads.pure _))
  | false =>
    obtain rfl := hnots
    have hne : Token.keyword .NULL ≠ .keyword .NOT := by decide
    exact Reads.bind_nil (Reads.accept_none (Front.cons trivial) hne)
      (Reads.bind_cons (Reads.expect trivial) (Reads.pure _))

/-- A sum behind which nothing is compared. -/
theorem reads_uncompared (he : e.Printable) (hts : ts ∈ operand 4 e.level e.printings)
    (hus : Front (Token.Ends 3) us) : Reads d (comparison nested) ts us e := by
  have hfits : Front (Token.Fits .mark) us := hus.mono Token.Ends.fits
  have hcomparison : comparisonOp? (front us) = none := by
    cases h : comparisonOp? (front us) with
    | none => rfl
    | some op => exact absurd rfl (hus.ne_of_joins (joins_of_comparisonOp? h) le_rfl)
  have haffix : affixOp? (front us) = none := by
    cases h : affixOp? (front us) with
    | none => rfl
    | some op => exact absurd rfl (hus.ne_of_joins (joins_of_affixOp? h) le_rfl)
  refine Reads.bind_last (hp e he ts hts us (hus.mono (Token.Ends.mono (by decide)))) ?_
  refine Reads.peek_bind_nil hfits ?_
  rw [hcomparison, haffix]
  exact Reads.bind_nil (Reads.accept_none hfits (hus.ne_of_joins rfl le_rfl)) (Reads.pure e)

theorem ReadsLevel.comparison : ReadsLevel d 3 (comparison nested) := by
  intro e he ts hts us hus
  by_cases hlevel : e.level = 3
  · rw [operand_of_le hlevel.ge] at hts
    cases e with
    | compare op l r =>
      exact reads_compare hp he hts (hus.mono (Token.Ends.mono (by decide)))
    | nullTest negated c => exact reads_nullTest hp he hts
    | binary op l r => cases op <;> cases hlevel
    | _ => cases hlevel
  · rw [operand_succ hlevel] at hts
    exact reads_uncompared hp he hts hus

end Comparison

/-! ## Brackets and literals -/

section Brackets

variable (hn : ReadsLevel d 0 nested)

include hn

theorem ReadsLevel.expr (he : e.Printable) {ts us : List Token} (hts : ts ∈ e.printings)
    (hus : Front (Token.Ends 0) us) : Reads d nested ts us e :=
  hn e he ts (by rwa [operand_of_le (Nat.zero_le _)]) us hus

theorem reads_arguments {close : Symbol} (hclose : close = .closeParen ∨ close = .closeBracket)
    {es : List Expr} (hes : ∀ e ∈ es, e.Printable) {ts us : List Token}
    (hts : ts ∈ commas (Expr.listPrintings es)) :
    Reads d (arguments nested close) (ts ++ [.symbol close]) us es := by
  rw [Expr.listPrintings_eq] at hts
  cases es with
  | nil =>
    obtain rfl := hts
    exact Reads.bind_cons (Reads.accept trivial) (Reads.pure [])
  | cons e es =>
    have hstarts : Starts (Token.Begins 0) ts := by
      obtain ⟨ts₁, h₁, ts₂, -, rfl⟩ := Language.mem_mul.mp hts
      exact ((hes e List.mem_cons_self).starts ts₁ h₁).append.mono
        (Token.Begins.mono (Nat.zero_le _))
    have hopen : front (ts ++ [.symbol close] ++ us) ≠ .symbol close := by
      intro h
      have := h ▸ hstarts.append.holds_front us
      rcases hclose with rfl | rfl <;> exact this
    have hends : (Token.symbol close).Ends 0 := by
      rcases hclose with rfl | rfl <;> exact ⟨trivial, by decide⟩
    have hcomma : Token.symbol close ≠ .symbol .comma := by
      rcases hclose with rfl | rfl <;> decide
    refine Reads.bind_nil
      (Reads.accept_none (hstarts.append.front_append.mono Token.Begins.fits) hopen) ?_
    refine Reads.bind (Reads.commaSeparated (S := Token.Ends 0) (L := Expr.printings)
      ⟨trivial, by decide⟩ Token.Ends.fits ?_ (Front.cons hends) (front_cons_ne hcomma)
      (List.cons_ne_nil e es) hts) ?_
    · intro e he ts hts vs hvs
      exact hn.expr (hes e he) hts hvs
    · exact Reads.bind_cons (Reads.expect trivial) (Reads.pure _)

theorem reads_mapEntry {key : String} (hkey : PlainName key) (he : e.Printable) {ts us : List Token}
    (hts : ts ∈ word key * symbol .colon * e.printings) (hus : Front (Token.Ends 0) us) :
    Reads d (mapEntry nested) ts us (key, e) := by
  rw [mul_assoc] at hts
  obtain ⟨_, rfl, _, ⟨_, rfl, vs, hvs, rfl⟩, rfl⟩ := hts
  refine Reads.bind_cons (Reads.name hkey) (Reads.bind_cons (Reads.expect trivial) ?_)
  exact Reads.bind_last (hn.expr he hvs hus) (Reads.pure (key, e))

theorem reads_mapEntries {entries : List (String × Expr)} (h : (Expr.map entries).Printable)
    {ts us : List Token} (hts : ts ∈ commas (Expr.entryPrintings entries)) :
    Reads d (mapEntries nested) (ts ++ [.symbol .closeBrace]) us entries := by
  rw [Expr.entryPrintings_eq] at hts
  cases entries with
  | nil =>
    obtain rfl := hts
    exact Reads.bind_cons (Reads.accept trivial) (Reads.pure [])
  | cons p entries =>
    have hkeys : ∀ q ∈ p :: entries, PlainName q.1 := h.self.1
    have hstarts : Starts (Token.Fits .name) ts ∧
        front (ts ++ [.symbol .closeBrace] ++ us) ≠ .symbol .closeBrace := by
      obtain ⟨_, ⟨_, ⟨_, rfl, _, -, rfl⟩, _, -, rfl⟩, _, -, rfl⟩ := hts
      exact ⟨Starts.cons (hkeys p List.mem_cons_self), front_cons_ne (by simp)⟩
    refine Reads.bind_nil (Reads.accept_none hstarts.1.append.front_append hstarts.2) ?_
    refine Reads.bind (Reads.commaSeparated (S := Token.Ends 0)
      ⟨trivial, by decide⟩ Token.Ends.fits ?_ (Front.cons ⟨trivial, by decide⟩)
      (front_cons_ne (by decide)) (List.cons_ne_nil p entries) hts) ?_
    · intro q hq ts hts vs hvs
      exact reads_mapEntry hn (hkeys q hq) (h.inside (List.mem_map_of_mem hq)) hts hvs
    · have hlast : lastValues (p :: entries) = p :: entries := lastValues_of_nodup h.self.2
      refine Reads.bind_cons (Reads.expect trivial) ?_
      rw [hlast]
      exact Reads.pure _

theorem reads_callArguments {f : String} {distinct : Bool} {args : List Expr}
    (hargs : ∀ e ∈ args, e.Printable) {ts us : List Token}
    (hts : ts ∈ only distinct (keyword .DISTINCT) * commas (Expr.listPrintings args)) :
    Reads d (callArguments nested f) (ts ++ [.symbol .closeParen]) us (.call f distinct args) := by
  obtain ⟨ds, hds, as, has, rfl⟩ := hts
  have harguments : Reads d (arguments nested .closeParen) (as ++ [.symbol .closeParen]) us args :=
    reads_arguments hn (.inl rfl) hargs has
  cases distinct with
  | true =>
    obtain rfl := hds
    have hfits : (Token.keyword .DISTINCT).Fits .operand := by simp [Token.Fits, Keyword.reserved]
    refine Reads.peek_bind (Front.cons hfits) ?_
    exact Reads.next_bind hfits (Reads.bind_last harguments (Reads.pure _))
  | false =>
    obtain rfl := hds
    -- an argument starts with neither a star nor the keyword
    have hstarts : Starts (fun t => t.Begins 0 ∨ t = .symbol .closeParen)
        (as ++ [.symbol .closeParen]) := by
      rw [Expr.listPrintings_eq] at has
      cases args with
      | nil =>
        obtain rfl := has
        exact Starts.cons (.inr rfl)
      | cons e args =>
        obtain ⟨ts₁, h₁, _, -, rfl⟩ := has
        refine ((hargs e List.mem_cons_self).starts ts₁ h₁).append.append.mono fun t ht => .inl ?_
        exact Token.Begins.mono (Nat.zero_le _) t ht
    show Reads d (callArguments nested f) (as ++ [.symbol .closeParen]) us _
    refine Reads.peek_bind (hstarts.front_append.mono ?_) ?_
    · rintro t (ht | rfl)
      · exact Token.Begins.fits t ht
      · trivial
    · have hfront := hstarts.holds_front us
      split
      · rename_i h
        rw [h] at hfront
        exact absurd hfront (by simp [Token.Begins])
      · rename_i h
        rw [h] at hfront
        exact absurd hfront (by simp [Token.Begins])
      · exact Reads.bind_last harguments (Reads.pure _)

end Brackets

theorem digitValue?_of_isDigit {c : Char} (hc : c.isDigit = true) :
    Text.digitValue? c = some (c.toNat - '0'.toNat) := by
  have hident : isIdentifierChar c = true := by simp [isIdentifierChar, Char.isAlphanum, hc]
  have := forall_isIdentifierChar
    (p := fun c => !c.isDigit || Text.digitValue? c == some (c.toNat - '0'.toNat))
    (by decide +kernel) hident
  simpa [hc] using this

theorem digitsValue_toDigits (n : Nat) : Text.digitsValue (Nat.toDigits 10 n) = n := by
  have hdigit : ∀ c ∈ Nat.toDigits 10 n, c.isDigit = true :=
    fun c hc => Nat.isDigit_of_mem_toDigits (by decide) (by decide) hc
  calc Text.digitsValue (Nat.toDigits 10 n)
      = (Nat.toDigits 10 n).foldl (fun n c => 10 * n + (c.toNat - '0'.toNat)) 0 :=
        List.foldl_ext _ _ 0 fun n c hc => by
          rw [digitValue?_of_isDigit (hdigit c hc), Option.getD_some]
    _ = n := by rw [← Nat.ofDigitChars_eq_foldl, Nat.ofDigitChars_ten_toDigits]

theorem reads_integerLiteral {n : Nat} (h : (Nat.toDigits 10 n).length ≤ Numeral.digitLimit)
    {us : List Token} : Reads d (integerLiteral (Nat.toDigits 10 n)) [] us (.integer n) := by
  unfold integerLiteral
  rw [if_pos h, digitsValue_toDigits]
  exact Reads.pure _

/-- **Brackets, names and literals are read.**  What is inside brackets comes after a token, so the
text of it is shorter. -/
theorem ReadsLevel.atom (hn : ReadsLevel d 0 nested) : ReadsLevel (d + 1) 8 (atom nested) := by
  intro e he ts hts us hus
  by_cases hlevel : 8 ≤ e.level
  · rw [operand_of_le hlevel] at hts
    have hopen : front us ≠ .symbol .openParen := hus.ne_of_joins rfl le_rfl
    cases e with
    | var x =>
      obtain rfl := hts
      exact Reads.next_bind_lt he.self.1
        (Reads.bind_nil (Reads.accept_none (hus.mono Token.Ends.fits) hopen) (Reads.pure _))
    | null =>
      obtain rfl := hts
      exact Reads.next_bind_lt (by simp [Token.Fits, Keyword.reserved]) (Reads.pure _)
    | boolean b =>
      obtain rfl := hts
      cases b with
      | true => exact Reads.next_bind_lt (by simp [Token.Fits]) (Reads.pure _)
      | false => exact Reads.next_bind_lt (by simp [Token.Fits]) (Reads.pure _)
    | integer n =>
      obtain rfl := hts
      exact Reads.next_bind_lt
        (fun c hc => Nat.isDigit_of_mem_toDigits (by decide) (by decide) hc)
        (reads_integerLiteral he.self.1)
    | number x => exact hts.elim
    | text s =>
      obtain rfl := hts
      refine Reads.next_bind_lt ⟨s.toList, he.self.1, rfl⟩ ?_
      show Reads d (pure (Expr.text (String.ofList (unescape (escape s.toList))))) _ _ _
      rw [unescape_escape he.self.1, String.ofList_toList]
      exact Reads.pure _
    | list es =>
      rw [Expr.printings, mul_assoc] at hts
      obtain ⟨_, rfl, _, ⟨ts, hts, _, rfl, rfl⟩, rfl⟩ := hts
      exact Reads.next_bind_lt trivial
        (Reads.bind_last (reads_arguments hn (.inr rfl) (fun e he' => he.inside he') hts)
          (Reads.pure _))
    | map entries =>
      rw [Expr.printings, mul_assoc] at hts
      obtain ⟨_, rfl, _, ⟨ts, hts, _, rfl, rfl⟩, rfl⟩ := hts
      exact Reads.next_bind_lt trivial
        (Reads.bind_last (reads_mapEntries hn he hts) (Reads.pure _))
    | call f distinct args =>
      rw [Expr.printings, mul_assoc, mul_assoc, mul_assoc, ← mul_assoc (only _ _)] at hts
      obtain ⟨_, rfl, _, ⟨_, rfl, _, ⟨ts, hts, _, rfl, rfl⟩, rfl⟩, rfl⟩ := hts
      exact Reads.next_bind_lt he.self.1 (Reads.bind_cons (Reads.accept trivial)
        (reads_callArguments hn (fun e he' => he.inside he') hts))
    | callStar f =>
      rw [Expr.printings, mul_assoc, mul_assoc] at hts
      obtain ⟨_, rfl, _, ⟨_, rfl, _, ⟨_, rfl, _, rfl, rfl⟩, rfl⟩, rfl⟩ := hts
      refine Reads.next_bind_lt he.self.1 (Reads.bind_cons (Reads.accept trivial) ?_)
      refine Reads.peek_bind (Front.cons trivial) (Reads.next_bind trivial ?_)
      exact Reads.bind_cons (Reads.expect trivial) (Reads.pure _)
    | binary op l r => cases op <;> exact absurd hlevel (by simp [Expr.level, BinaryOp.level])
    | _ => exact absurd hlevel (by simp [Expr.level])
  · unfold operand at hts
    rw [if_neg hlevel, mul_assoc] at hts
    obtain ⟨_, rfl, _, ⟨ts, hts, _, rfl, rfl⟩, rfl⟩ := hts
    have hclose : Front (Token.Ends 0) ([Token.symbol .closeParen] ++ us) :=
      Front.cons ⟨trivial, by decide⟩
    refine Reads.next_bind_lt trivial (Reads.bind (hn.expr he hts hclose) ?_)
    exact Reads.bind_cons (Reads.expect trivial) (Reads.pure _)

/-! ## All levels -/

theorem ReadsLevel.expressionAt : ∀ d, ReadsLevel d 0 (expressionAt d)
  | 0 => by
    intro e _ ts _ us _ text hlength
    exact absurd hlength (Nat.not_lt_zero _)
  | d + 1 =>
    have hsigned : ReadsLevel (d + 1) 6 (Parser.signed (Parser.expressionAt d)) :=
      (ReadsLevel.expressionAt d).atom.propertyAccess.signed
    have hsum : ReadsLevel (d + 1) 4 (Parser.sum (Parser.expressionAt d)) :=
      .leftChain operatorsAt_sum (.leftChain operatorsAt_product hsigned)
    .leftChain operatorsAt_disjunction (.leftChain operatorsAt_conjunction hsum.comparison.negation)

/-- **A printed expression is read**, where nothing follows that would go on with it. -/
theorem readsLevel_expression : ReadsLevel d 0 expression := by
  intro e he ts hts us hus text hlength htext
  exact ReadsLevel.expressionAt (text.length + 1) e he ts hts us hus text (Nat.lt_succ_self _) htext

theorem reads_expression (he : e.Printable) {ts us : List Token} (hts : ts ∈ e.printings)
    (hus : Front (Token.Ends 0) us) : Reads d expression ts us e :=
  readsLevel_expression.expr he hts hus

end Parser

end GraphSql.Query
