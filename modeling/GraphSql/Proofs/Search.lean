/-!
# Searches through numbered candidates

A name or a quote that must not be in use is found by trying candidates one after the other until one
is not rejected.  Nothing bounds such a search beforehand, so whether it stops is a question about the
candidates (`Stops`).  It stops at the first candidate that is not rejected (`stops_iff`), and looking
through a range of candidates finds where it stops if the range has one that is not rejected
(`exists_find?_range_stops`).
-/

namespace GraphSql

/-- A search that has come to the candidate `k` stops at the candidate `n`. -/
inductive Stops (rejected : Nat → Prop) : Nat → Nat → Prop
  | here {k : Nat} : ¬ rejected k → Stops rejected k k
  | later {k n : Nat} : rejected k → Stops rejected (k + 1) n → Stops rejected k n

variable {rejected : Nat → Prop} {k n : Nat}

theorem stops_of_forall (hn : ¬ rejected n) (h : ∀ j, k ≤ j → j < n → rejected j) (hk : k ≤ n) :
    Stops rejected k n := by
  -- the induction is on the number of candidates that are still to be rejected
  obtain ⟨d, rfl⟩ := Nat.exists_eq_add_of_le hk
  induction d generalizing k with
  | zero => exact .here hn
  | succ d ih =>
    have hshift : k + (d + 1) = k + 1 + d := by omega
    rw [hshift] at hn h ⊢
    exact .later (h k (Nat.le_refl k) (by omega)) (ih hn (fun j hj => h j (by omega)) (by omega))

/-- **A search stops at the first candidate that is not rejected.** -/
theorem stops_iff :
    Stops rejected k n ↔ k ≤ n ∧ ¬ rejected n ∧ ∀ j, k ≤ j → j < n → rejected j := by
  constructor
  · intro h
    induction h with
    | here hk => exact ⟨Nat.le_refl _, hk, fun j hj hlt => absurd hlt (by omega)⟩
    | later hk _ ih =>
      obtain ⟨hle, hn, hrest⟩ := ih
      refine ⟨by omega, hn, fun j hj hlt => ?_⟩
      rcases Nat.eq_or_lt_of_le hj with rfl | hj
      · exact hk
      · exact hrest j hj hlt
  · rintro ⟨hk, hn, h⟩
    exact stops_of_forall hn h hk

/-- **Looking through enough candidates finds where the search stops.** -/
theorem exists_find?_range_stops {accepted : Nat → Bool} {m : Nat}
    (hrejected : ∀ k, accepted k = false ↔ rejected k) (h : ∃ k ≤ m, ¬ rejected k) :
    ∃ n ≤ m, (List.range (m + 1)).find? accepted = some n ∧ Stops rejected 0 n := by
  obtain ⟨k, hk, hfree⟩ := h
  have haccepted : accepted k = true := eq_true_of_ne_false (mt (hrejected k).mp hfree)
  have hsome : ((List.range (m + 1)).find? accepted).isSome = true :=
    List.find?_isSome.mpr ⟨k, List.mem_range.mpr (by omega), haccepted⟩
  obtain ⟨n, hn⟩ := Option.isSome_iff_exists.mp hsome
  obtain ⟨hfound, hmem, hbefore⟩ := List.find?_range_eq_some.mp hn
  have hle : n ≤ m := Nat.le_of_lt_succ (List.mem_range.mp hmem)
  have hlast : ¬ rejected n := mt (hrejected n).mpr (by rw [hfound]; decide)
  refine ⟨n, hle, hn, stops_iff.mpr ⟨Nat.zero_le n, hlast, fun j _ hj => ?_⟩⟩
  have hno : accepted j = false := by simpa using hbefore j hj
  exact (hrejected j).mp hno

end GraphSql
