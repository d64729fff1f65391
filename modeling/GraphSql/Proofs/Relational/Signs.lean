import GraphSql.Proofs.Relational.Names
import GraphSql.Proofs.Words

/-!
# Minus signs in a row

A minus sign is written right before its operand, without brackets.  When the text of the operand
starts with a minus sign as well, two of them stand in a row.  `Expr.opensSigned` says from the tree
whether the text of an expression starts with a minus sign (`Expr.unsigned_render`), and
`Expr.SignsApart` that no minus sign of a tree stands before such an operand.
-/

namespace GraphSql

/-- Whether a number is written with a minus sign. -/
def Binary64.signed : Binary64 → Bool
  | .nan => false
  | .infinite negative => negative
  | .finite negative _ _ => negative

namespace Relational

/-- Whether the text of a constant starts with a minus sign. -/
def Literal.opensSigned : Literal → Bool
  | .integer n => decide (n < 0)
  | .number x => x.signed
  | _ => false

namespace Expr

/-- Whether the text of an expression starts with a minus sign.  Comparisons are not bracketed, so
they start as their left side does. -/
def opensSigned : Expr → Bool
  | .literal l => l.opensSigned
  | .negate _ => true
  | .nullTest _ e => e.opensSigned
  | .compare _ l _ => l.opensSigned
  | .inList e _ => e.opensSigned
  | .equalsAny e _ => e.opensSigned
  | .like _ e _ => e.opensSigned
  | _ => false

mutual

/-- No minus sign stands before an operand whose text starts with one. -/
def SignsApart : Expr → Prop
  | .column _ _ => True
  | .output _ => True
  | .star => True
  | .literal _ => True
  | .row es => SignsApartAll es
  | .array es => SignsApartAll es
  | .not e => SignsApart e
  | .negate e => e.opensSigned = false ∧ SignsApart e
  | .binary _ l r => SignsApart l ∧ SignsApart r
  | .nullTest _ e => SignsApart e
  | .compare _ l r => SignsApart l ∧ SignsApart r
  | .inList e es => SignsApart e ∧ SignsApartAll es
  | .equalsAny e a => SignsApart e ∧ SignsApart a
  | .like _ e part => SignsApart e ∧ SignsApart part
  | .call _ _ es => SignsApartAll es
  | .ifElse c a b => SignsApart c ∧ SignsApart a ∧ SignsApart b

@[inherit_doc SignsApart]
def SignsApartAll : List Expr → Prop
  | [] => True
  | e :: es => SignsApart e ∧ SignsApartAll es

end

theorem signsApartAll_iff {es : List Expr} : SignsApartAll es ↔ ∀ e ∈ es, e.SignsApart := by
  induction es with
  | nil => simp [SignsApartAll]
  | cons e es ih => simp [SignsApartAll, ih]

end Expr

/-- No expression of a select statement has minus signs in a row. -/
structure Select.SignsApart (s : Select) : Prop where
  items : ∀ i ∈ s.items, i.expr.SignsApart
  sources : ∀ x ∈ s.sources, ∀ e ∈ x.join.conditions, e.SignsApart
  conditions : ∀ e ∈ s.conditions, e.SignsApart
  groupBy : ∀ e ∈ s.groupBy, e.SignsApart
  orderBy : ∀ i ∈ s.orderBy, i.expr.SignsApart
  offset : ∀ e ∈ s.offset, e.SignsApart
  limit : ∀ e ∈ s.limit, e.SignsApart

/-- No expression of a statement has minus signs in a row. -/
def Statement.SignsApart : Statement → Prop
  | .select s => s.SignsApart
  | .createTemp _ s => s.SignsApart
  | .write _ => True
  | .block b => b.source.SignsApart

/-! ## How texts start -/

/-- A text that is not empty and does not start with a minus sign. -/
structure Unsigned (s : String) : Prop where
  first : s.toList.head?.any (fun c => c != '-') = true

instance (s : String) : Decidable (Unsigned s) := decidable_of_iff _ ⟨Unsigned.mk, Unsigned.first⟩

namespace Unsigned

variable {s : String}

theorem exists_cons (h : Unsigned s) : ∃ c cs, s.toList = c :: cs ∧ c ≠ '-' := by
  have hfirst := h.first
  cases hs : s.toList with
  | nil => simp [hs] at hfirst
  | cons c cs => exact ⟨c, cs, rfl, by simpa [hs] using hfirst⟩

theorem of_cons {c : Char} {cs : List Char} (hs : s.toList = c :: cs) (hc : c ≠ '-') :
    Unsigned s :=
  ⟨by simpa [hs] using hc⟩

theorem append (h : Unsigned s) (t : String) : Unsigned (s ++ t) := by
  obtain ⟨c, cs, hs, hc⟩ := h.exists_cons
  exact of_cons (by rw [String.toList_append, hs]; rfl) hc

/-- A text of characters other than minus signs, which may be empty, before an unsigned one. -/
theorem after (h : Unsigned s) {t : String} (ht : ∀ c ∈ t.toList, c ≠ '-') : Unsigned (t ++ s) := by
  obtain ⟨c, cs, hs, hc⟩ := h.exists_cons
  cases hts : t.toList with
  | nil => exact of_cons (by rw [String.toList_append, hs, hts]; rfl) hc
  | cons d ds =>
    have hcons : (t ++ s).toList = d :: (ds ++ s.toList) := by
      rw [String.toList_append, hts, List.cons_append]
    exact of_cons hcons (ht d (by rw [hts]; exact List.mem_cons_self))

theorem after_word (h : Unsigned s) {t : String} (ht : Wordy t) : Unsigned (t ++ s) := by
  refine h.after fun c hc => ?_
  rintro rfl
  exact absurd (ht '-' hc) (by decide)

end Unsigned

end Relational

/-! ## The text of a number -/

namespace Binary64

variable {ds : List Char} {lead : Int} {c : Char}

theorem mem_positional (h : c ∈ positional ds lead) : c ∈ ds ∨ c = '0' ∨ c = '.' := by
  unfold positional at h
  split at h
  · simp only [List.cons_append, List.mem_cons, List.mem_append, List.mem_replicate] at h
    rcases h with h | h | ⟨-, h⟩ | h
    · exact .inr (.inl h)
    · exact .inr (.inr h)
    · exact .inr (.inl h)
    · exact .inl h
  · dsimp only at h
    split at h
    · simp only [List.mem_append, List.mem_replicate, List.mem_cons, List.not_mem_nil,
        or_false] at h
      rcases h with (h | ⟨-, h⟩) | h | h
      · exact .inl h
      · exact .inr (.inl h)
      · exact .inr (.inr h)
      · exact .inr (.inl h)
    · rw [List.mem_append, List.mem_cons] at h
      rcases h with h | h | h
      · exact .inl (List.mem_of_mem_take h)
      · exact .inr (.inr h)
      · exact .inl (List.mem_of_mem_drop h)

theorem positional_ne_nil : positional ds lead ≠ [] := by
  unfold positional
  split
  · exact List.cons_ne_nil _ _
  · dsimp only
    split
    · simp
    · simp

/-- A power of ten stands behind an `e` and a sign. -/
theorem exists_scientific (ds : List Char) (lead : Int) :
    ∃ mantissa sign power, scientific ds lead = mantissa ++ 'e' :: sign :: power ∧
      (∀ c ∈ mantissa, c ∈ ds ∨ c = '.') ∧ (sign = '-' ∨ sign = '+') ∧ power ≠ [] ∧
      ∀ c ∈ power, c.isDigit = true := by
  unfold scientific
  refine ⟨_, if lead < 0 then '-' else '+',
    List.replicate (2 - (Nat.toDigits 10 lead.natAbs).length) '0' ++ Nat.toDigits 10 lead.natAbs,
    by simp only [List.append_assoc, List.cons_append, List.nil_append]; rfl, ?_,
    ite_eq_or_eq _ _ _, ?_, ?_⟩
  · intro c hc
    split at hc
    · cases hc
    · exact .inl hc
    · simp only [List.mem_cons] at hc ⊢
      tauto
  · intro hnil
    exact Nat.toDigits_ne_nil (List.append_eq_nil_iff.mp hnil).2
  · intro c hc
    rcases List.mem_append.mp hc with hc | hc
    · rw [List.eq_of_mem_replicate hc]
      decide
    · exact Nat.isDigit_of_mem_toDigits (by decide) (by decide) hc

theorem isDigit_shortestDigits (m : Nat) (e : Int) :
    ∀ c ∈ (shortestDigits m e).1, c.isDigit = true := by
  intro c hc
  unfold shortestDigits at hc
  simp only [dropZeros, Text.dropEndWhile, List.mem_reverse] at hc
  exact Nat.isDigit_of_mem_toDigits (by decide) (by decide)
    (List.mem_reverse.mp ((List.dropWhile_sublist _).subset hc))

end Binary64

namespace Relational

/-! ## How constants start -/

theorem ne_minus_of_isDigit {c : Char} (h : c.isDigit = true) : c ≠ '-' := by
  rintro rfl
  exact absurd h (by decide)

theorem Unsigned.of_chars {cs : List Char} (hne : cs ≠ []) (h : ∀ c ∈ cs, c ≠ '-') :
    Unsigned (String.ofList cs) := by
  obtain ⟨c, cs, rfl⟩ := List.exists_cons_of_ne_nil hne
  exact of_cons (String.toList_ofList) (h c List.mem_cons_self)

theorem unsigned_natural (n : Nat) : Unsigned (Numeral.natural n) :=
  .of_chars Nat.toDigits_ne_nil fun _ hc =>
    ne_minus_of_isDigit (Nat.isDigit_of_mem_toDigits (by decide) (by decide) hc)

theorem unsigned_integer {n : Int} (h : ¬ n < 0) : Unsigned (Numeral.integer n) := by
  cases n with
  | ofNat n => exact unsigned_natural n
  | negSucc n => exact absurd (Int.negSucc_lt_zero n) h

theorem unsigned_positional {ds : List Char} (h : ∀ c ∈ ds, c.isDigit = true) (lead : Int) :
    Unsigned (String.ofList (Binary64.positional ds lead)) := by
  refine .of_chars Binary64.positional_ne_nil fun c hc => ?_
  rcases Binary64.mem_positional hc with hc | rfl | rfl
  · exact ne_minus_of_isDigit (h c hc)
  · decide
  · decide

theorem unsigned_scientific {ds : List Char} (h : ∀ c ∈ ds, c.isDigit = true) (lead : Int) :
    Unsigned (String.ofList (Binary64.scientific ds lead)) := by
  obtain ⟨mantissa, sign, power, he, hmantissa, -⟩ := Binary64.exists_scientific ds lead
  have htail : Unsigned (String.ofList ('e' :: sign :: power)) :=
    .of_cons String.toList_ofList (by decide)
  rw [he, String.ofList_append]
  refine htail.after fun c hc => ?_
  rw [String.toList_ofList] at hc
  rcases hmantissa c hc with hc | rfl
  · exact ne_minus_of_isDigit (h c hc)
  · decide

theorem unsigned_number {x : Binary64} (h : x.signed = false) : Unsigned x.render := by
  cases x with
  | nan => exact (by decide : Unsigned "nan")
  | infinite negative =>
    obtain rfl : negative = false := h
    exact (by decide : Unsigned "inf")
  | finite negative m e =>
    obtain rfl : negative = false := h
    unfold Binary64.render
    dsimp only
    split
    · decide
    · have hdigits := Binary64.isDigit_shortestDigits m e
      rw [if_neg Bool.false_ne_true, String.empty_append]
      split
      · exact unsigned_positional hdigits _
      · exact unsigned_scientific hdigits _

theorem Literal.unsigned_render {l : Literal} (h : l.opensSigned = false) : Unsigned l.render := by
  cases l with
  | null => exact (by decide : Unsigned "NULL")
  | boolean b =>
    rw [Literal.render]
    cases b <;> decide
  | integer n => exact unsigned_integer (of_decide_eq_false h)
  | number x => exact unsigned_number h
  | text s =>
    rw [Literal.render, quote, String.append_assoc]
    exact Unsigned.append (by decide) _
  | array ls =>
    rw [Literal.render, String.append_assoc]
    exact Unsigned.append (by decide +kernel) _
  | textArray es =>
    cases es with
    | nil => exact (by decide +kernel : Unsigned "ARRAY[]::TEXT[]")
    | cons e es =>
      rw [Literal.render, String.append_assoc]
      exact Unsigned.append (by decide +kernel) _

/-! ## How expressions start -/

/-- **The tree tells whether its text starts with a minus sign.** -/
theorem Expr.unsigned_render : ∀ {e : Expr}, e.All WordyRef Wordy → e.opensSigned = false →
    Unsigned e.render
  | .column source name, h, _ => by
    rw [Expr.render, columnRef, String.append_assoc]
    exact Unsigned.after_word (Unsigned.append (by decide) _) h.1
  | .star, _, _ => by
    rw [Expr.render]
    decide
  | .literal l, _, hs => by
    rw [Expr.render]
    exact l.unsigned_render hs
  | .row es, _, _ => by
    rw [Expr.render, String.append_assoc]
    exact Unsigned.append (by decide) _
  | .array es, _, _ => by
    rw [Expr.render, String.append_assoc]
    exact Unsigned.append (by decide +kernel) _
  | .not e, _, _ => by
    rw [Expr.render, String.append_assoc]
    exact Unsigned.append (by decide) _
  | .binary op l r, _, _ => by
    rw [Expr.render]
    simp only [String.append_assoc]
    exact Unsigned.append (by decide) _
  | .nullTest negated e, h, hs => by
    rw [Expr.render]
    exact (Expr.unsigned_render (e := e) h hs).append _
  | .compare op l r, h, hs => by
    rw [Expr.render]
    simp only [String.append_assoc]
    exact (Expr.unsigned_render h.1 hs).append _
  | .inList e es, h, hs => by
    rw [Expr.render]
    simp only [String.append_assoc]
    exact (Expr.unsigned_render h.1 hs).append _
  | .equalsAny e a, h, hs => by
    rw [Expr.render]
    simp only [String.append_assoc]
    exact (Expr.unsigned_render h.1 hs).append _
  | .like affix e part, h, hs => by
    have he := Expr.unsigned_render h.1 hs
    rw [Expr.render]
    unfold renderLike
    cases affix <;> simp only [String.append_assoc] <;> exact he.append _
  | .call f distinct es, h, _ => by
    rw [Expr.render]
    simp only [String.append_assoc]
    exact Unsigned.after_word (Unsigned.append (by decide) _) h.1
  | .ifElse c a b, _, _ => by
    rw [Expr.render]
    simp only [String.append_assoc]
    exact Unsigned.append (by decide +kernel) _

end Relational

end GraphSql
