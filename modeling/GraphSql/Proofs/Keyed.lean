import Mathlib.Data.List.Forall2
import Mathlib.Data.List.Perm.Basic
import GraphSql.Keyed

/-!
# Entries of lists with one entry per key

Where the entries of such a list come from: putting an entry adds nothing else, and collecting pairs
keeps only pairs that were there.  Whether an entry is replaced or added is decided by `List.find?`
(`putBy_of_find?_eq_none`, `map_putBy_of_find?_eq_some`).  The keys of collected entries are different
(`nodup_foldl_putBy`), and entries with different keys are left alone (`foldl_putBy_of_pairwise`).
-/

namespace GraphSql

variable {α : Type}

theorem mem_of_mem_putBy {same : α → Bool} {a x : α} :
    ∀ {xs : List α}, x ∈ putBy same a xs → x = a ∨ x ∈ xs
  | [], h => by
    rw [putBy, List.mem_singleton] at h
    exact .inl h
  | b :: bs, h => by
    rw [putBy] at h
    split at h
    · rcases List.mem_cons.mp h with rfl | h
      · exact .inl rfl
      · exact .inr (List.mem_cons_of_mem b h)
    · rcases List.mem_cons.mp h with rfl | h
      · exact .inr List.mem_cons_self
      · exact (mem_of_mem_putBy h).imp id (List.mem_cons_of_mem b)

theorem putBy_of_find?_eq_none {same : α → Bool} {a : α} :
    ∀ {xs : List α}, xs.find? same = none → putBy same a xs = xs ++ [a]
  | [], _ => rfl
  | b :: bs, h => by
    rw [List.find?_cons] at h
    split at h
    · cases h
    · rename_i hb
      rw [putBy, if_neg (by simp [hb]), putBy_of_find?_eq_none h]
      rfl

/-- Replacing an entry keeps every view of the list that does not tell the two entries apart. -/
theorem map_putBy_of_find?_eq_some {β : Type} {f : α → β} {same : α → Bool} {a b : α}
    (hf : f a = f b) :
    ∀ {xs : List α}, xs.find? same = some b → (putBy same a xs).map f = xs.map f
  | [], h => by cases h
  | c :: cs, h => by
    rw [List.find?_cons] at h
    split at h
    · rename_i hc
      cases h
      simp [putBy, hc, hf]
    · rename_i hc
      simp [putBy, hc, map_putBy_of_find?_eq_some hf h]

/-- An entry is found under its own key, and everything else as before. -/
theorem find?_putBy {K : α → String} {a : α} (key : String) :
    ∀ xs : List α, (putBy (fun b => K b == K a) a xs).find? (fun b => K b == key) =
      if K a = key then some a else xs.find? fun b => K b == key
  | [] => by
    by_cases ha : K a = key
    · simp [putBy, ha]
    · simp [putBy, ha]
  | b :: bs => by
    by_cases hb : K b = K a
    · by_cases ha : K a = key
      · simp [putBy, hb, ha]
      · simp [putBy, hb, ha]
    · rw [putBy, if_neg (by simpa using hb), List.find?_cons, List.find?_cons, find?_putBy key bs]
      by_cases ha : K a = key
      · have hkey : (K b == key) = false := beq_eq_false_iff_ne.mpr fun he => hb (he.trans ha.symm)
        rw [hkey, if_pos ha]
      · rw [if_neg ha, if_neg ha]

/-- An entry that takes over what was kept under its key adds only what is new. -/
theorem flatMap_putBy_perm {β : Type} {f : α → List β} {same : α → Bool} {a : α} {added : List β} :
    ∀ {xs : List α}, f a = (xs.find? same).elim [] f ++ added →
      ((putBy same a xs).flatMap f).Perm (xs.flatMap f ++ added)
  | [], h => by
    rw [putBy, List.flatMap_singleton, h]
    exact .refl _
  | b :: bs, h => by
    rw [List.find?_cons] at h
    split at h
    · rename_i hb
      have hfirst : f a = f b ++ added := h
      rw [putBy, if_pos hb, List.flatMap_cons, List.flatMap_cons, hfirst, List.append_assoc,
        List.append_assoc]
      exact List.perm_append_comm.append_left (f b)
    · rename_i hb
      rw [putBy, if_neg (by simp [hb]), List.flatMap_cons, List.flatMap_cons, List.append_assoc]
      exact (flatMap_putBy_perm h).append_left (f b)

/-- A view of the entries that keeps their keys can be taken before or after putting one. -/
theorem map_putBy {β : Type} {f : α → β} {same : α → Bool} {same' : β → Bool}
    (h : ∀ x, same' (f x) = same x) (a : α) :
    ∀ xs : List α, (putBy same a xs).map f = putBy same' (f a) (xs.map f)
  | [] => rfl
  | x :: xs => by
    rw [putBy, List.map_cons, putBy, h]
    split
    · rfl
    · rw [List.map_cons, map_putBy h a xs]

/-- Entries are put side by side into lists that correspond. -/
theorem forall₂_putBy {β : Type} {R : α → β → Prop} {same : α → Bool} {same' : β → Bool} {a : α} {b : β}
    (hab : R a b) (hsame : ∀ x y, R x y → same x = same' y) {xs : List α} {ys : List β}
    (h : List.Forall₂ R xs ys) : List.Forall₂ R (putBy same a xs) (putBy same' b ys) := by
  induction h with
  | nil => exact .cons hab .nil
  | cons hxy hrest ih =>
    rw [putBy, putBy, hsame _ _ hxy]
    split
    · exact .cons hab hrest
    · exact .cons hxy ih

theorem putBy_putBy {same : α → Bool} {a b : α} (h : same a = true) :
    ∀ xs : List α, putBy same b (putBy same a xs) = putBy same b xs
  | [] => by simp [putBy, h]
  | x :: xs => by
    by_cases hx : same x = true
    · simp [putBy, hx, h]
    · simp [putBy, hx, putBy_putBy h xs]

/-- Entries that were put one after the other come from what was there or from what was put. -/
theorem mem_of_mem_foldl_putBy {same : α → α → Bool} {x : α} :
    ∀ {entries kept : List α}, x ∈ entries.foldl (fun kept e => putBy (same e) e kept) kept →
      x ∈ kept ∨ x ∈ entries
  | [], _, h => .inl h
  | e :: entries, kept, h => by
    rw [List.foldl_cons] at h
    rcases mem_of_mem_foldl_putBy h with h | h
    · rcases mem_of_mem_putBy h with rfl | h
      · exact .inr List.mem_cons_self
      · exact .inl h
    · exact .inr (List.mem_cons_of_mem e h)

theorem mem_of_mem_lastValues {x : String × α} {entries : List (String × α)}
    (h : x ∈ lastValues entries) : x ∈ entries := by
  have h : x ∈ entries.foldl (fun kept e => putBy (fun f => f.1 == e.1) e kept) [] := h
  exact (mem_of_mem_foldl_putBy h).resolve_left List.not_mem_nil

/-! ## Keys -/

/-- Putting an entry keeps the keys different. -/
theorem nodup_putBy {κ : Type} {K : α → κ} {same : α → Bool} {a : α} {kept : List α}
    (hsame : ∀ b, same b = true ↔ K b = K a) (h : (kept.map K).Nodup) :
    ((putBy same a kept).map K).Nodup := by
  cases hfind : kept.find? same with
  | none =>
    rw [putBy_of_find?_eq_none hfind, List.map_append, List.map_singleton]
    refine List.nodup_append.mpr ⟨h, by simp, ?_⟩
    rintro key hmem _ hentry rfl
    obtain ⟨b, hb, hkey⟩ := List.mem_map.mp hmem
    have hkey := hkey.trans (List.mem_singleton.mp hentry)
    exact List.find?_eq_none.mp hfind b hb ((hsame b).mpr hkey)
  | some b =>
    have hkey : K b = K a := (hsame b).mp (List.find?_some hfind)
    rw [map_putBy_of_find?_eq_some hkey.symm hfind]
    exact h

/-- Entries that were put one after the other have different keys. -/
theorem nodup_foldl_putBy {κ : Type} {K : α → κ} {same : α → α → Bool}
    (hsame : ∀ a b, same a b = true ↔ K b = K a) (entries : List α) :
    ((entries.foldl (fun kept e => putBy (same e) e kept) []).map K).Nodup :=
  List.foldlRecOn (motive := fun kept : List α => (kept.map K).Nodup) entries _ List.nodup_nil
    fun _ h entry _ => nodup_putBy (hsame entry) h

/-- Each key stands once among the last values. -/
theorem nodup_lastValues (entries : List (String × α)) :
    ((lastValues entries).map Prod.fst).Nodup := by
  have hsame : ∀ a b : String × α, (b.1 == a.1) = true ↔ b.1 = a.1 := fun _ _ => beq_iff_eq
  exact nodup_foldl_putBy hsame entries

/-- Entries with different keys are all kept, in their order. -/
theorem foldl_putBy_of_pairwise {same : α → α → Bool} {entries : List α}
    (h : entries.Pairwise fun a b => same b a = false) :
    entries.foldl (fun kept e => putBy (same e) e kept) [] = entries := by
  have hfold : ∀ (rest kept : List α), (kept ++ rest).Pairwise (fun a b => same b a = false) →
      rest.foldl (fun kept e => putBy (same e) e kept) kept = kept ++ rest := by
    intro rest
    induction rest with
    | nil => simp
    | cons entry rest ih =>
      intro kept hkept
      have hnew : kept.find? (same entry) = none := by
        rw [List.find?_eq_none]
        intro e he
        rw [(List.pairwise_append.mp hkept).2.2 e he entry List.mem_cons_self]
        exact Bool.false_ne_true
      rw [List.foldl_cons, putBy_of_find?_eq_none hnew, ih (kept ++ [entry]) (by simpa using hkept)]
      simp
  exact hfold entries [] h

/-- Pairs with different keys are their own last values. -/
theorem lastValues_of_nodup {entries : List (String × α)} (h : (entries.map Prod.fst).Nodup) :
    lastValues entries = entries := by
  have hkeys : entries.Pairwise fun a b => (a.1 == b.1) = false :=
    (List.pairwise_map.mp h).imp fun hne => beq_eq_false_iff_ne.mpr hne
  exact foldl_putBy_of_pairwise hkeys

end GraphSql
