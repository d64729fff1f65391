import GraphSql.Proofs.Words

/-!
# Texts but for the case of their ASCII letters

Two texts with the same folded form are equal but for the case of ASCII letters.  They have the same
small-letter form (`lower_of_folded`), since the neighbours of a letter matter only by their being cased
or not, and they stay so when blanks are trimmed (`folded_trim`).
-/

namespace GraphSql

/-- A name as the database reads it, with its ASCII letters in small form. -/
def folded (x : String) : List Char := x.toList.map Char.toLower

theorem folded_append (x y : String) : folded (x ++ y) = folded x ++ folded y := by
  simp [folded]

theorem folded_eq_nil {x : String} : folded x = [] ↔ x = "" := by
  rw [folded, List.map_eq_nil_iff, String.toList_eq_nil_iff]

/-- What does not tell the two cases of an ASCII letter apart does not tell a character from its small
form. -/
theorem apply_toLower {β : Type} {f : Char → β}
    (h : ∀ n < 26, f (Char.ofNat (97 + n)) = f (Char.ofNat (65 + n))) (c : Char) :
    f c.toLower = f c := by
  by_cases hc : 65 ≤ c.toNat ∧ c.toNat ≤ 90
  · have hsmall : c.toLower = Char.ofNat (97 + (c.toNat - 65)) := by
      have hall := forall_ascii (p := fun c => !decide (65 ≤ c.toNat ∧ c.toNat ≤ 90) ||
        c.toLower == Char.ofNat (97 + (c.toNat - 65))) (by decide +kernel) (c := c) (by omega)
      simpa [hc] using hall
    have hletter := h (c.toNat - 65) (by omega)
    rw [Nat.add_sub_cancel' hc.1, Char.ofNat_toNat] at hletter
    rw [hsmall, hletter]
  · have hsame : c.toLower = c := dif_neg hc
    rw [hsame]

namespace Text

/-- The two cases of an ASCII letter are told apart by none of the tests on characters. -/
theorem letters_alike : ∀ n < 26,
    isBlank (Char.ofNat (97 + n)) = isBlank (Char.ofNat (65 + n)) ∧
      isCased (Char.ofNat (97 + n)) = isCased (Char.ofNat (65 + n)) ∧
      lowerChar (Char.ofNat (97 + n)) = lowerChar (Char.ofNat (65 + n)) := by
  decide +kernel

theorem isBlank_toLower (c : Char) : isBlank c.toLower = isBlank c :=
  apply_toLower (fun n hn => (letters_alike n hn).1) c

theorem isCased_toLower (c : Char) : isCased c.toLower = isCased c :=
  apply_toLower (fun n hn => (letters_alike n hn).2.1) c

/-- No ASCII letter is passed over by case rules. -/
theorem isCaseIgnorable_of_letter {c : Char}
    (h : 65 ≤ c.toNat ∧ c.toNat ≤ 90 ∨ 97 ≤ c.toNat ∧ c.toNat ≤ 122) : isCaseIgnorable c = false := by
  -- one look at each range, instead of one for each letter
  have hranges : ∀ r ∈ caseIgnorables, r.2 < 65 ∨ 90 < r.1 ∧ r.2 < 97 ∨ 122 < r.1 := by
    decide +kernel
  rw [isCaseIgnorable, Ranges.covers, List.any_eq_false]
  intro r hr hcovers
  rw [Bool.and_eq_true, decide_eq_true_eq, decide_eq_true_eq] at hcovers
  have := hranges r hr
  omega

theorem isCaseIgnorable_toLower (c : Char) : isCaseIgnorable c.toLower = isCaseIgnorable c := by
  have hletters : ∀ n < 26, (Char.ofNat (97 + n)).toNat = 97 + n ∧
      (Char.ofNat (65 + n)).toNat = 65 + n := by decide
  refine apply_toLower (fun n hn => ?_) c
  obtain ⟨hsmall, hcapital⟩ := hletters n hn
  rw [isCaseIgnorable_of_letter (by omega), isCaseIgnorable_of_letter (by omega)]

theorem lowerChar_toLower (c : Char) : lowerChar c.toLower = lowerChar c :=
  apply_toLower (fun n hn => (letters_alike n hn).2.2) c

theorem toLower_eq_sigma (c : Char) : (c.toLower = 'Σ') = (c = 'Σ') := by
  have h := apply_toLower (f := fun c => decide (c = 'Σ')) (by decide) c
  exact propext (decide_eq_decide.mp h)

theorem dropWhile_toLower {p : Char → Bool} (h : ∀ c, p c.toLower = p c) (cs : List Char) :
    (cs.map Char.toLower).dropWhile p = (cs.dropWhile p).map Char.toLower := by
  have hp : p ∘ Char.toLower = p := funext h
  rw [List.dropWhile_map, hp]

theorem startsCased_toLower (cs : List Char) :
    startsCased (cs.map Char.toLower) = startsCased cs := by
  rw [startsCased, startsCased, dropWhile_toLower isCaseIgnorable_toLower]
  cases cs.dropWhile isCaseIgnorable with
  | nil => rfl
  | cons c cs => exact isCased_toLower c

theorem lowerAfter_toLower (cs : List Char) : ∀ before,
    lowerAfter (before.map Char.toLower) (cs.map Char.toLower) = lowerAfter before cs := by
  induction cs with
  | nil => exact fun _ => rfl
  | cons c cs ih =>
    intro before
    have hrest := ih (c :: before)
    rw [List.map_cons] at hrest ⊢
    rw [lowerAfter, lowerAfter, hrest, lowerSigma, lowerSigma, startsCased_toLower,
      startsCased_toLower, lowerChar_toLower]
    simp only [toLower_eq_sigma]

theorem trimChars_toLower (cs : List Char) :
    trimChars (cs.map Char.toLower) = (trimChars cs).map Char.toLower := by
  rw [trimChars, trimChars, dropEndWhile, dropEndWhile, dropWhile_toLower isBlank_toLower,
    ← List.map_reverse, dropWhile_toLower isBlank_toLower, List.map_reverse]

/-- The small-letter form of a text does not depend on the case of its ASCII letters. -/
theorem lower_of_folded {x y : String} (h : folded x = folded y) : lower x = lower y := by
  have hfold : ∀ z, lower z = String.ofList (lowerAfter [] (folded z)) := by
    intro z
    rw [lower, ← lowerAfter_toLower z.toList []]
    rfl
  rw [hfold, hfold, h]

theorem sameName_trans {a b c : String} (hab : sameName a b = true) (hbc : sameName b c = true) :
    sameName a c = true := by
  unfold sameName at *
  rw [beq_iff_eq] at *
  exact hab.trans hbc

theorem lowerChar_ne_nil (c : Char) : lowerChar c ≠ [] := by
  unfold lowerChar
  split
  · exact List.cons_ne_nil _ _
  · split
    · exact List.cons_ne_nil _ _
    · split
      · exact List.cons_ne_nil _ _
      · exact List.cons_ne_nil _ _

/-- Only the empty text has an empty small-letter form. -/
theorem lower_eq_empty {x : String} : lower x = "" ↔ x = "" := by
  rw [← String.toList_eq_nil_iff, ← String.toList_eq_nil_iff, lower, String.toList_ofList]
  cases x.toList with
  | nil => exact Iff.rfl
  | cons c cs =>
    rw [lowerAfter, List.append_eq_nil_iff]
    refine ⟨fun h => ?_, fun h => absurd h (List.cons_ne_nil _ _)⟩
    obtain ⟨hc, -⟩ := h
    split at hc
    · exact absurd hc (List.cons_ne_nil _ _)
    · exact absurd hc (lowerChar_ne_nil c)

theorem lowerAfter_of_ascii {cs : List Char} (h : ∀ c ∈ cs, c.toNat < 128) :
    ∀ before, lowerAfter before cs = cs.map Char.toLower := by
  induction cs with
  | nil => exact fun _ => rfl
  | cons c cs ih =>
    intro before
    have hc := h c List.mem_cons_self
    have hsigma : c ≠ 'Σ' := by
      rintro rfl
      exact absurd hc (by decide)
    rw [lowerAfter, if_neg hsigma, lowerChar, if_pos hc, ih fun d hd => h d (List.mem_cons_of_mem c hd)]
    rfl

/-- The small-letter form of an ASCII text is its folded form. -/
theorem toList_lower {x : String} (h : ∀ c ∈ x.toList, c.toNat < 128) :
    (lower x).toList = folded x := by
  rw [lower, String.toList_ofList, lowerAfter_of_ascii h, folded]

theorem folded_trim (x : String) : folded (trim x) = trimChars (folded x) := by
  rw [folded, trim, String.toList_ofList, folded, trimChars_toLower]

end Text

end GraphSql
