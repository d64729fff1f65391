import Mathlib.Data.List.Nodup
import Mathlib.Data.List.Perm.Subperm
import GraphSql.Proofs.Search
import GraphSql.Proofs.Words

/-!
# Fresh names

`freshName` looks for a free candidate among as many candidates as there are taken names and one
more.  It always finds one (`exists_freeName`): the small-letter forms of the candidates are candidates
for the small-letter form of the name (`lower_nameCandidate`), and these are all different, so the
taken names are too few for them.  So a search that is not told where to end stops too, and at the
same name (`freshName_first`).
-/

namespace GraphSql

namespace Text

/-- A character that is neither cased nor passed over hides what stands behind it from the sigmas
before it. -/
theorem startsCased_append {d : Char} (hi : isCaseIgnorable d = false) (hc : isCased d = false)
    (ds : List Char) : ∀ cs : List Char, startsCased (cs ++ d :: ds) = startsCased cs
  | [] => by simp [startsCased, hi, hc]
  | c :: cs => by
    have ih := startsCased_append hi hc ds cs
    rw [startsCased, startsCased] at ih
    rw [startsCased, startsCased, List.cons_append, List.dropWhile_cons, List.dropWhile_cons]
    by_cases h : isCaseIgnorable c = true
    · rw [if_pos h, if_pos h]
      exact ih
    · rw [if_neg h, if_neg h]

theorem lowerAfter_append {d : Char} (hi : isCaseIgnorable d = false) (hc : isCased d = false)
    (ds : List Char) : ∀ before cs : List Char,
      lowerAfter before (cs ++ d :: ds) =
        lowerAfter before cs ++ lowerAfter (cs.reverse ++ before) (d :: ds)
  | before, [] => by simp [lowerAfter]
  | before, c :: cs => by
    have hsigma : lowerSigma before (cs ++ d :: ds) = lowerSigma before cs := by
      rw [lowerSigma, lowerSigma, startsCased_append hi hc]
    rw [List.cons_append, lowerAfter, hsigma, lowerAfter_append hi hc ds (c :: before) cs]
    simp [lowerAfter]

/-- Digits and underscores have no other form. -/
theorem lowerAfter_eq_self : ∀ {before cs : List Char},
    (∀ c ∈ cs, c.isDigit = true ∨ c = '_') → lowerAfter before cs = cs
  | _, [], _ => rfl
  | before, c :: cs, h => by
    have hsmall : c.toNat < 65 ∨ c.toNat = 95 := by
      rcases h c List.mem_cons_self with hc | rfl
      · have : '9'.toNat = 57 := rfl
        have := (Char.isDigit_iff_toNat.mp hc).2
        omega
      · exact .inr rfl
    have hself : c.toLower = c := dif_neg fun hcapital => by
      have h₁ : 65 ≤ c.toNat := hcapital.1
      have h₂ : c.toNat ≤ 90 := hcapital.2
      omega
    have hc : lowerChar c = [c] ∧ c ≠ 'Σ' := by
      refine ⟨by rw [lowerChar, if_pos (by omega), hself], ?_⟩
      rintro rfl
      exact absurd hsmall (by decide)
    rw [lowerAfter, if_neg hc.2, hc.1,
      lowerAfter_eq_self fun d hd => h d (List.mem_cons_of_mem c hd)]
    rfl

theorem lower_append_underscore (s : String) (n : Nat) :
    lower (s ++ "_" ++ Numeral.natural n) = lower s ++ "_" ++ Numeral.natural n := by
  have hdigits : ∀ c ∈ '_' :: Nat.toDigits 10 n, c.isDigit = true ∨ c = '_' := by
    intro c hc
    rcases List.mem_cons.mp hc with rfl | hc
    · exact .inr rfl
    · exact .inl (Nat.isDigit_of_mem_toDigits (by decide) (by decide) hc)
  have hlist : (s ++ "_" ++ Numeral.natural n).toList = s.toList ++ '_' :: Nat.toDigits 10 n := by
    simp [Numeral.natural]
  apply String.toList_injective
  rw [lower, String.toList_ofList, hlist,
    lowerAfter_append (by decide +kernel) (by decide +kernel), lowerAfter_eq_self hdigits]
  simp [lower, Numeral.natural]

end Text

namespace Relational

/-- The small-letter forms of the candidates for a name are those for its small-letter form. -/
theorem lower_nameCandidate (name : String) :
    ∀ k, Text.lower (nameCandidate name k) = nameCandidate (Text.lower name) k
  | 0 => rfl
  | k + 1 => Text.lower_append_underscore name (k + 2)

theorem toList_nameCandidate (name : String) (k : Nat) :
    (nameCandidate name (k + 1)).toList = name.toList ++ '_' :: Nat.toDigits 10 (k + 2) := by
  simp [nameCandidate, Numeral.natural]

theorem nameCandidate_injective (name : String) {j k : Nat}
    (h : nameCandidate name j = nameCandidate name k) : j = k := by
  have hlist := congrArg String.toList h
  have hzero : ∀ n, name.toList ≠ (nameCandidate name (n + 1)).toList := by
    intro n he
    have hlength := congrArg List.length he
    rw [toList_nameCandidate, List.length_append, List.length_cons] at hlength
    omega
  cases j with
  | zero =>
    cases k with
    | zero => rfl
    | succ k => exact absurd hlist (hzero k)
  | succ j =>
    cases k with
    | zero => exact absurd hlist.symm (hzero j)
    | succ k =>
      rw [toList_nameCandidate, toList_nameCandidate] at hlist
      have hdigits := toDigits_injective (List.cons.inj (List.append_cancel_left hlist)).2
      omega

/-- `name` is none of the taken names, letter case apart. -/
def FreeName (taken : List String) (name : String) : Prop :=
  ∀ t ∈ taken, Text.lower t ≠ Text.lower name

theorem isFree_iff {taken : List String} {name : String} :
    isFree (taken.map Text.lower) name = true ↔ FreeName taken name := by
  rw [isFree, Bool.not_eq_true', List.contains_eq_mem, decide_eq_false_iff_not, List.mem_map, FreeName]
  exact ⟨fun h t ht he => h ⟨t, ht, he⟩, fun h hmem => hmem.elim fun t ht => h t ht.1 ht.2⟩

/-- **Too few names are taken**: one of the candidates that are tried is free. -/
theorem exists_freeName (name : String) (taken : List String) :
    ∃ k ≤ taken.length, FreeName taken (nameCandidate name k) := by
  by_contra hn
  have hsubset : (List.range (taken.length + 1)).map (nameCandidate (Text.lower name)) ⊆
      taken.map Text.lower := by
    intro x hx
    obtain ⟨k, hk, rfl⟩ := List.mem_map.mp hx
    by_contra hfree
    refine hn ⟨k, Nat.le_of_lt_succ (List.mem_range.mp hk), fun t ht he => hfree ?_⟩
    exact List.mem_map.mpr ⟨t, ht, he.trans (lower_nameCandidate name k)⟩
  have hnodup : ((List.range (taken.length + 1)).map (nameCandidate (Text.lower name))).Nodup :=
    List.nodup_range.map fun _ _ h => nameCandidate_injective _ h
  have hlength := (List.subperm_of_subset hnodup hsubset).length_le
  rw [List.length_map, List.length_map, List.length_range] at hlength
  omega

/-- **A fresh name is the candidate at which the search for a free one stops.** -/
theorem exists_stops_freshName (name : String) (taken : List String) :
    ∃ n ≤ taken.length, Stops (fun k => ¬ FreeName taken (nameCandidate name k)) 0 n ∧
      freshName name taken = nameCandidate name n := by
  have hrejected : ∀ k, isFree (taken.map Text.lower) (nameCandidate name k) = false ↔
      ¬ FreeName taken (nameCandidate name k) := fun k => Bool.eq_false_iff.trans (not_congr isFree_iff)
  obtain ⟨k, hk, hfree⟩ := exists_freeName name taken
  obtain ⟨n, hn, hfound, hstops⟩ :=
    exists_find?_range_stops hrejected ⟨k, hk, not_not.mpr hfree⟩
  exact ⟨n, hn, hstops, by rw [freshName, hfound, Option.getD_some]⟩

theorem freeName_freshName (name : String) (taken : List String) :
    FreeName taken (freshName name taken) := by
  obtain ⟨n, -, hstops, hname⟩ := exists_stops_freshName name taken
  rw [hname]
  exact not_not.mp (stops_iff.mp hstops).2.1

/-- **A fresh name is none of the taken ones**, letter case apart. -/
theorem lower_freshName_not_mem (name : String) (taken : List String) :
    Text.lower (freshName name taken) ∉ taken.map Text.lower := by
  intro hmem
  obtain ⟨t, ht, he⟩ := List.mem_map.mp hmem
  exact freeName_freshName name taken t ht he

/-- **The search for a fresh name stops, at the first name that is free**: after at most one candidate
more than there are taken names, at the name itself if it is free, and else at the name with the
least number behind it that makes it free. -/
theorem freshName_first (name : String) (taken : List String) :
    (∃ n ≤ taken.length, Stops (fun k => ¬ FreeName taken (nameCandidate name k)) 0 n ∧
      freshName name taken = nameCandidate name n) ∧
    FreeName taken (freshName name taken) ∧
    (FreeName taken name → freshName name taken = name) ∧
    (¬ FreeName taken name → ∃ k ≥ 2, freshName name taken = name ++ "_" ++ Numeral.natural k ∧
      ∀ j, 2 ≤ j → j < k → ¬ FreeName taken (name ++ "_" ++ Numeral.natural j)) := by
  refine ⟨exists_stops_freshName name taken, freeName_freshName name taken, ?_⟩
  obtain ⟨n, -, hstops, hname⟩ := exists_stops_freshName name taken
  obtain ⟨-, hn, hbefore⟩ := stops_iff.mp hstops
  cases n with
  | zero => exact ⟨fun _ => hname, fun htaken => absurd htaken hn⟩
  | succ n =>
    have htaken : ¬ FreeName taken name := hbefore 0 (Nat.le_refl 0) (Nat.succ_pos n)
    refine ⟨fun hfree => absurd hfree htaken, fun _ => ⟨n + 2, by omega, hname, fun j hj hlt => ?_⟩⟩
    -- the number behind the name is the number of the candidate and one more
    obtain ⟨i, rfl⟩ := Nat.exists_eq_add_of_le' hj
    exact hbefore (i + 1) (Nat.zero_le _) (by omega)

end Relational

end GraphSql
