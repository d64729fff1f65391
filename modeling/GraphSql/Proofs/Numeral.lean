import GraphSql.Number.Numeral
import GraphSql.Proofs.Text

/-!
# Texts that spell integers

`Numeral.Spells s n` says how a text spells an integer: there may be blanks around it and one sign before
it, its digits can be of any script, single underscores may stand between them, and there are no more
digits than the limit.  These are the texts that are read as integers (`Numeral.read?_eq_some_iff`).
-/

namespace GraphSql.Numeral

variable {cs ds : List Char}

/-- A row of digits in which single underscores may stand between digits, and its digits. -/
inductive Grouped : List Char → List Char → Prop
  | last {d : Char} : Text.isDigit d = true → Grouped [d] [d]
  | next {d : Char} {cs ds : List Char} : Text.isDigit d = true → Grouped cs ds →
      Grouped (d :: cs) (d :: ds)
  | group {d : Char} {cs ds : List Char} : Text.isDigit d = true → Grouped cs ds →
      Grouped (d :: '_' :: cs) (d :: ds)

/-- The signs of a numeral, and what its digits are multiplied by. -/
def signs : List (List Char × Int) := [([], 1), (['+'], 1), (['-'], -1)]

/-- The text spells the integer. -/
def Spells (s : String) (n : Int) : Prop :=
  ∃ before sign factor numeral digits after, (∀ c ∈ before, Text.isBlank c = true) ∧
    (sign, factor) ∈ signs ∧ Grouped numeral digits ∧ digits.length ≤ digitLimit ∧
    (∀ c ∈ after, Text.isBlank c = true) ∧
    s.toList = before ++ (sign ++ numeral ++ after) ∧ n = factor * Text.digitsValue digits

/-! ## Digits -/

theorem isBlank_of_isDigit {c : Char} (h : Text.isDigit c = true) : Text.isBlank c = false := by
  have hapart : ∀ r ∈ Text.decimalDigits, ∀ b ∈ Text.blanks, r.2 < b.1 ∨ b.2 < r.1 := by decide +kernel
  obtain ⟨r, hr, hcovers⟩ := List.any_eq_true.mp h
  rw [Text.isBlank, Text.Ranges.covers, List.any_eq_false]
  intro b hb hblank
  simp only [Bool.and_eq_true, decide_eq_true_eq] at hcovers hblank
  have := hapart r hr b hb
  omega

/-- A row of digits starts and ends with a digit. -/
theorem Grouped.ends (h : Grouped cs ds) :
    (∃ d rest, cs = d :: rest ∧ Text.isDigit d = true) ∧
      ∀ c ∈ cs.getLast?, Text.isDigit c = true := by
  induction h with
  | last hd =>
    refine ⟨⟨_, [], rfl, hd⟩, ?_⟩
    rintro _ ⟨⟩
    exact hd
  | next hd _ ih =>
    obtain ⟨⟨e, rest, rfl, -⟩, hlast⟩ := ih
    exact ⟨⟨_, _, rfl, hd⟩, hlast⟩
  | group hd _ ih =>
    obtain ⟨⟨e, rest, rfl, -⟩, hlast⟩ := ih
    exact ⟨⟨_, _, rfl, hd⟩, hlast⟩

theorem grouped_of_groupedDigits? (h : groupedDigits? cs = some ds) : Grouped cs ds := by
  fun_induction groupedDigits? cs generalizing ds with
  | case1 => cases h
  | case2 c hc =>
    cases h
    exact .last hc
  | case3 => cases h
  | case4 c cs hc ih =>
    obtain ⟨es, hes, rfl⟩ := Option.map_eq_some_iff.mp h
    exact .group hc (ih hes)
  | case5 => cases h
  | case6 c d cs _ hc ih =>
    obtain ⟨es, hes, rfl⟩ := Option.map_eq_some_iff.mp h
    exact .next hc (ih hes)
  | case7 => cases h

theorem Grouped.groupedDigits?_eq (h : Grouped cs ds) : groupedDigits? cs = some ds := by
  induction h with
  | last hd => rw [groupedDigits?, if_pos hd]
  | @next d cs ds hd hcs ih =>
    obtain ⟨⟨e, rest, rfl, he⟩, -⟩ := hcs.ends
    have hunderscore : e ≠ '_' := by
      rintro rfl
      exact absurd he (by decide +kernel)
    rw [groupedDigits?, if_pos hd, ih, Option.map_some]
    exact hunderscore
  | group hd _ ih => rw [groupedDigits?, if_pos hd, ih, Option.map_some]

/-! ## Numerals -/

/-- The sign of a text and what follows it. -/
theorem exists_sign (cs : List Char) : ∃ sign factor, (sign, factor) ∈ signs ∧
    cs = sign ++ (splitSign cs).2 ∧
    ∀ n : Int, (if (splitSign cs).1 then -n else n) = factor * n := by
  unfold splitSign
  split
  · exact ⟨['-'], -1, by decide, rfl, fun n => by simp⟩
  · exact ⟨['+'], 1, by decide, rfl, fun n => by simp⟩
  · exact ⟨[], 1, by decide, rfl, fun n => by simp⟩

theorem splitSign_append {sign : List Char} {factor : Int} (hsign : (sign, factor) ∈ signs)
    (h : Grouped cs ds) : (splitSign (sign ++ cs)).2 = cs ∧
      ∀ n : Int, (if (splitSign (sign ++ cs)).1 then -n else n) = factor * n := by
  obtain ⟨⟨d, rest, rfl, hd⟩, -⟩ := h.ends
  have hminus : d ≠ '-' := by
    rintro rfl
    exact absurd hd (by decide +kernel)
  have hplus : d ≠ '+' := by
    rintro rfl
    exact absurd hd (by decide +kernel)
  simp only [signs, List.mem_cons, List.not_mem_nil, or_false, Prod.mk.injEq] at hsign
  rcases hsign with ⟨rfl, rfl⟩ | ⟨rfl, rfl⟩ | ⟨rfl, rfl⟩
  · simp [splitSign, hminus, hplus]
  · simp [splitSign]
  · simp [splitSign]

theorem trimmed_numeral {sign : List Char} {factor : Int} (hsign : (sign, factor) ∈ signs)
    (h : Grouped cs ds) : Text.Trimmed (sign ++ cs) := by
  obtain ⟨⟨d, rest, rfl, hd⟩, hlast⟩ := h.ends
  have hdark : ∀ p ∈ signs, p.1.head?.all (fun c => !Text.isBlank c) = true := by decide +kernel
  constructor
  · intro c hc
    rw [List.head?_append] at hc
    rcases Option.or_eq_some_iff.mp hc with hc | ⟨-, hc⟩
    · have hsigned := hdark _ hsign
      rw [hc] at hsigned
      simpa using hsigned
    · obtain rfl := Option.some.inj hc
      exact isBlank_of_isDigit hd
  · intro c hc
    rw [List.getLast?_append, List.getLast?_cons, Option.some_or, ← List.getLast?_cons] at hc
    exact isBlank_of_isDigit (hlast c hc)

/-- **The texts that are read as an integer are those that spell it.** -/
theorem read?_eq_some_iff {s : String} {n : Int} : read? s = some n ↔ Spells s n := by
  constructor
  · intro h
    unfold read? at h
    dsimp only at h
    split at h
    · cases h
    · rename_i digits hdigits
      split at h
      · rename_i hlimit
        obtain ⟨before, after, hbefore, hafter, -, htext⟩ := Text.exists_trimChars s.toList
        obtain ⟨sign, factor, hsign, hcut, hfactor⟩ := exists_sign (Text.trimChars s.toList)
        refine ⟨before, sign, factor, _, digits, after, hbefore, hsign,
          grouped_of_groupedDigits? hdigits, hlimit, hafter, ?_, ?_⟩
        · rw [← hcut]
          exact htext
        · rw [← hfactor]
          exact (Option.some.inj h).symm
      · cases h
  · rintro ⟨before, sign, factor, numeral, digits, after, hbefore, hsign, hgrouped, hlimit, hafter,
      htext, rfl⟩
    have htrim : Text.trimChars s.toList = sign ++ numeral := by
      rw [htext]
      exact Text.trimChars_append hbefore hafter (trimmed_numeral hsign hgrouped)
    obtain ⟨hrest, hfactor⟩ := splitSign_append hsign hgrouped
    unfold read?
    dsimp only
    rw [htrim, hrest, hgrouped.groupedDigits?_eq]
    dsimp only
    rw [if_pos hlimit, hfactor]

end GraphSql.Numeral
