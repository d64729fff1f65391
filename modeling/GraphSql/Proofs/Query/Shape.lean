import Mathlib.Data.List.Basic
import GraphSql.Proofs.Query.Named
import GraphSql.Query.Names

/-!
# Queries by their clauses

A query that is taken apart into match clauses and projections is just the list of these clauses
(`plain?_eq_some`, `staged?_eq_some`), and the query that is made of the clauses before a loop has no
names of its own (`holds_of_beforeLoop?`).
-/

namespace GraphSql.Query

variable {q : Query} {ms : List Matching}

theorem plain?_eq_some : ∀ {q : Query} {ms : List Matching} {p : Projection},
    plain? q = some (ms, p) → q = ms.map .matching ++ [.returning p]
  | [], ms, p, h => by simp [plain?] at h
  | .passing w :: q, ms, p, h => by simp [plain?] at h
  | .returning r :: q, ms, p, h => by simp [plain?] at h
  | .looping l :: q, ms, p, h => by simp [plain?] at h
  | .matching m :: q, ms, p, h => by
    unfold plain? at h
    split at h
    · rename_i he
      cases he
      cases h
      rfl
    · rename_i he
      cases he
      obtain ⟨⟨ms', p'⟩, hq, h⟩ := Option.map_eq_some_iff.mp h
      cases h
      rw [plain?_eq_some hq]
      rfl
    · cases h

theorem staged?_eq_some : ∀ {q : Query} {ms : List Matching} {w : WithProjection} {p : Projection},
    staged? q = some (ms, w, p) → q = ms.map .matching ++ [.passing w, .returning p]
  | [], ms, w, p, h => by simp [staged?] at h
  | .passing v :: q, ms, w, p, h => by simp [staged?] at h
  | .returning r :: q, ms, w, p, h => by simp [staged?] at h
  | .looping l :: q, ms, w, p, h => by simp [staged?] at h
  | .matching m :: q, ms, w, p, h => by
    unfold staged? at h
    split at h
    · rename_i he
      cases he
      cases h
      rfl
    · rename_i he
      cases he
      obtain ⟨⟨ms', w', p'⟩, hq, h⟩ := Option.map_eq_some_iff.mp h
      cases h
      rw [staged?_eq_some hq]
      rfl
    · cases h

/-- The clauses of a query in one stage are its parts. -/
theorem plain?_append {p : Projection} : ∀ {ms : List Matching}, ms ≠ [] →
    plain? (ms.map .matching ++ [.returning p]) = some (ms, p)
  | [], h => absurd rfl h
  | [_], _ => rfl
  | m :: n :: ms, _ => by
    have hrest := plain?_append (p := p) (List.cons_ne_nil n ms)
    show (plain? ((n :: ms).map .matching ++ [.returning p])).map _ = _
    rw [hrest]
    rfl

/-- The clauses of a query in two stages are its parts. -/
theorem staged?_append {w : WithProjection} {p : Projection} : ∀ {ms : List Matching}, ms ≠ [] →
    staged? (ms.map .matching ++ [.passing w, .returning p]) = some (ms, w, p)
  | [], h => absurd rfl h
  | [_], _ => rfl
  | m :: n :: ms, _ => by
    have hrest := staged?_append (w := w) (p := p) (List.cons_ne_nil n ms)
    show (staged? ((n :: ms).map .matching ++ [.passing w, .returning p])).map _ = _
    rw [hrest]
    rfl

theorem plain?_of_staged? {w : WithProjection} {p : Projection} (h : q.staged? = some (ms, w, p)) :
    q.plain? = none := by
  rw [Option.eq_none_iff_forall_ne_some]
  rintro ⟨ms', p'⟩ hplain
  have hmem : Clause.passing w ∈ q := by
    rw [staged?_eq_some h]
    simp
  rw [plain?_eq_some hplain] at hmem
  simp at hmem

theorem shape_of_staged? {w : WithProjection} {p : Projection} (h : q.staged? = some (ms, w, p)) :
    q.shape = .staged := by
  rw [staged?_eq_some h]
  simp [shape, Clause.isLooping, Clause.isPassing]

theorem shape_eq_loop : q.shape = .loop ↔ q.any Clause.isLooping = true := by
  unfold shape
  split
  · rename_i hloop
    exact ⟨fun _ => hloop, fun _ => rfl⟩
  · rename_i hloop
    refine ⟨fun h => ?_, fun h => absurd h hloop⟩
    split at h
    · cases h
    · cases h

theorem shape_of_getLast? {l : Loop} (h : q.getLast? = some (.looping l)) : q.shape = .loop :=
  shape_eq_loop.mpr (List.any_eq_true.mpr ⟨_, List.mem_of_getLast? h, rfl⟩)

/-! ## The clauses before a loop -/

theorem firstAppearances_subset (xs : List String) : firstAppearances xs ⊆ xs := by
  refine List.foldlRecOn (motive := fun seen => seen ⊆ xs) xs _ (List.nil_subset xs) ?_
  intro seen hseen y hy
  split
  · exact hseen
  · exact List.append_subset.mpr ⟨hseen, by simpa using hy⟩

theorem mem_foldl_appearances {x : String} (xs : List String) : ∀ {seen : List String},
    x ∈ seen ∨ x ∈ xs →
      x ∈ xs.foldl (fun seen x => if seen.contains x then seen else seen ++ [x]) seen := by
  induction xs with
  | nil => exact fun h => h.resolve_right List.not_mem_nil
  | cons y ys ih =>
    intro seen h
    rw [List.foldl_cons]
    apply ih
    rw [List.mem_cons] at h
    by_cases hy : y ∈ seen
    · rw [if_pos (List.contains_iff_mem.mpr hy)]
      rcases h with hx | rfl | hx
      · exact .inl hx
      · exact .inl hy
      · exact .inr hx
    · rw [if_neg fun hc => hy (List.contains_iff_mem.mp hc)]
      rcases h with hx | rfl | hx
      · exact .inl (List.mem_append_left _ hx)
      · exact .inl (List.mem_append_right _ (List.mem_singleton_self x))
      · exact .inr hx

theorem mem_firstAppearances {x : String} {xs : List String} : x ∈ firstAppearances xs ↔ x ∈ xs :=
  ⟨fun h => firstAppearances_subset xs h, fun h => mem_foldl_appearances xs (.inr h)⟩

variable {P : String → Prop} {E : Expr → Prop}

theorem holds_ofNames (hvar : ∀ x, E (.var x) ↔ P x) {names : List String} (h : ∀ x ∈ names, P x) :
    (Projection.ofNames names).Holds P E := by
  refine ⟨fun i hi => ?_, by simp [Projection.ofNames], by simp [Projection.ofNames],
    by simp [Projection.ofNames]⟩
  obtain ⟨x, hx, rfl⟩ := List.mem_map.mp hi
  exact ⟨(hvar x).mpr (h x hx), by simp⟩

theorem ReturnItem.Holds.name? (hvar : ∀ x, E (.var x) ↔ P x) {i : ReturnItem} (h : i.Holds P E) :
    ∀ x ∈ i.name?, P x := by
  intro x hx
  have hexpr := h.expr
  unfold ReturnItem.name? at hx
  split at hx
  · rename_i a _ ha
    cases hx
    exact h.asName x ha
  · rename_i name _ hname
    cases hx
    rw [hname] at hexpr
    exact (hvar x).mp hexpr
  · cases hx

theorem Pattern.Holds.nodeNames {p : Pattern} (h : p.Holds P E) : ∀ x ∈ p.nodeNames, P x := by
  intro x hx
  obtain ⟨n, hn, hx⟩ := List.mem_filterMap.mp hx
  rcases List.mem_cons.mp hn with rfl | hn
  · exact h.first.name x hx
  · obtain ⟨hop, hhop, rfl⟩ := List.mem_map.mp hn
    exact (h.hops hop hhop).node.name x hx

theorem holds_nodeNames (h : ∀ m ∈ ms, m.Holds P E) : ∀ x ∈ nodeNames ms, P x := by
  intro x hx
  obtain ⟨m, hm, hx⟩ := List.mem_flatMap.mp (firstAppearances_subset _ hx)
  obtain ⟨p, hp, hx⟩ := List.mem_flatMap.mp hx
  exact ((h m hm).patterns p hp).nodeNames x hx

/-- The variables that the actions of a loop use as nodes. -/
theorem Loop.Holds.outerNames {l : Loop} (h : l.Holds P E) : ∀ x ∈ l.outerNames, P x := by
  intro x hx
  have hx := List.mem_of_mem_filter (firstAppearances_subset _ hx)
  obtain ⟨a, ha, hx⟩ := List.mem_flatMap.mp hx
  have haction := h.actions a ha
  cases a with
  | set items =>
    obtain ⟨item, hitem, rfl⟩ := List.mem_map.mp hx
    exact (haction item hitem).name
  | create p => exact Pattern.Holds.nodeNames haction x hx

theorem holds_of_matching? (h : ∀ c ∈ q, c.isLooping = false → c.Holds P E) :
    ∀ m ∈ q.filterMap Clause.matching?, m.Holds P E := by
  intro m hm
  obtain ⟨c, hc, hm⟩ := List.mem_filterMap.mp hm
  cases c with
  | matching m' =>
    cases hm
    exact h _ hc rfl
  | passing w => cases hm
  | returning p => cases hm
  | looping l => cases hm

/-- **The query before a loop is made of the clauses before it**, and of names that they have. -/
theorem holds_of_beforeLoop? (hvar : ∀ x, E (.var x) ↔ P x) {q' : Query}
    (hq : ∀ c ∈ q, c.isLooping = false → c.Holds P E) (h : beforeLoop? q = some q') :
    ∀ c ∈ q', c.isLooping = false → c.Holds P E := by
  unfold beforeLoop? at h
  split at h
  · rename_i w hw
    have hpassing : w.Holds P E := hq _ (List.mem_of_getLast? hw) rfl
    split at h
    · cases h
      intro c hc hloop
      rcases List.mem_append.mp hc with hc | hc
      · exact hq c ((List.dropLast_sublist q).subset hc) hloop
      · obtain rfl := List.mem_singleton.mp hc
        exact hpassing.projection
    · cases h
      intro c hc hloop
      rcases List.mem_append.mp hc with hc | hc
      · exact hq c hc hloop
      · obtain rfl := List.mem_singleton.mp hc
        refine holds_ofNames hvar fun x hx => ?_
        obtain ⟨i, hi, hx⟩ := List.mem_filterMap.mp hx
        exact (hpassing.projection.items i hi).name? hvar x hx
  · split at h
    · cases h
    · cases h
      intro c hc hloop
      rcases List.mem_append.mp hc with hc | hc
      · exact hq c hc hloop
      · obtain rfl := List.mem_singleton.mp hc
        exact holds_ofNames hvar (holds_nodeNames (holds_of_matching? hq))
  · cases h
    exact hq

end GraphSql.Query
