import Mathlib.Data.List.Forall2

/-!
# Computations that succeed

Everything here that can fail is an `Except` computation, and a statement about its result starts
from an equation `x = .ok a`.  `Except.bind_eq_ok` takes such an equation apart at a bind.  For the
list operations the results of the single steps are what matters: `Except.forall₂_of_mapM` pairs
arguments with results, and `Except.foldlM_induction` carries an invariant along a fold.

What a computation can fail with is told by `Except.FailsOnly`.  Two computations that run side by side
are compared by `Except.Follows` and `Except.Mirrors`, where the second succeeds when the first does, by
`Except.Agree`, where both fail with the same error or succeed with related results, and by
`Except.Related`, where errors are only related, too.  Each of them is an `Except.Lifting`, and the rules
for lists of computations are proved once, for every lifting.
-/

namespace List.Forall₂

variable {α β : Type} {R : α → β → Prop} {xs : List α} {ys : List β}

theorem exists_of_mem_right (h : Forall₂ R xs ys) {y : β} (hy : y ∈ ys) : ∃ x ∈ xs, R x y := by
  induction h with
  | nil => cases hy
  | @cons a b as bs hab _ ih =>
    rcases List.mem_cons.mp hy with rfl | hy
    · exact ⟨a, List.mem_cons_self, hab⟩
    · obtain ⟨x, hx, hxy⟩ := ih hy
      exact ⟨x, List.mem_cons_of_mem a hx, hxy⟩

theorem exists_of_mem_left (h : Forall₂ R xs ys) {x : α} (hx : x ∈ xs) : ∃ y ∈ ys, R x y :=
  exists_of_mem_right h.flip hx

theorem pairwise {P : α → α → Prop} {Q : β → β → Prop} (h : Forall₂ R xs ys) (hxs : xs.Pairwise P)
    (hPQ : ∀ x y x' y', R x y → R x' y' → P x x' → Q y y') : ys.Pairwise Q := by
  induction h with
  | nil => exact .nil
  | @cons a b as bs hab hrest ih =>
    obtain ⟨ha, has⟩ := List.pairwise_cons.mp hxs
    refine List.pairwise_cons.mpr ⟨fun y hy => ?_, ih has⟩
    obtain ⟨x, hx, hxy⟩ := exists_of_mem_right hrest hy
    exact hPQ a b x y hab hxy (ha x hx)

theorem rel_find? {p : α → Bool} {q : β → Bool} (h : Forall₂ R xs ys)
    (hpq : ∀ x y, R x y → p x = q y) : Option.Rel R (xs.find? p) (ys.find? q) := by
  induction h with
  | nil => exact .none
  | cons hxy _ ih =>
    rw [List.find?_cons, List.find?_cons, hpq _ _ hxy]
    split
    · exact .some hxy
    · exact ih

theorem rel_findSome? {γ δ : Type} {S : γ → δ → Prop} {f : α → Option γ} {g : β → Option δ}
    (h : Forall₂ R xs ys) (hfg : ∀ x y, R x y → Option.Rel S (f x) (g y)) :
    Option.Rel S (xs.findSome? f) (ys.findSome? g) := by
  induction h with
  | nil => exact .none
  | @cons x y _ _ hxy _ ih =>
    have hstep := hfg x y hxy
    rw [List.findSome?_cons, List.findSome?_cons]
    generalize f x = a at hstep ⊢
    generalize g y = b at hstep ⊢
    cases hstep with
    | none => exact ih
    | some hab => exact .some hab

theorem rel_lookup {γ δ : Type} {S : γ → δ → Prop} {as : List (String × γ)} {bs : List (String × δ)}
    (h : Forall₂ (fun a b => a.1 = b.1 ∧ S a.2 b.2) as bs) (key : String) :
    Option.Rel S (as.lookup key) (bs.lookup key) := by
  induction h with
  | nil => exact .none
  | @cons a b _ _ hab _ ih =>
    obtain ⟨hkey, hvalue⟩ := hab
    rw [List.lookup_cons, List.lookup_cons, hkey]
    cases key == b.1 with
    | true => exact .some hvalue
    | false => exact ih

end List.Forall₂

namespace Option.Rel

variable {α : Type} {R : α → α → Prop}

protected theorem refl (hR : ∀ a, R a a) (o : Option α) : Option.Rel R o o := by
  cases o with
  | none => exact .none
  | some a => exact .some (hR a)

protected theorem eq {o o' : Option α} (h : Option.Rel Eq o o') : o = o' := by
  cases h with
  | none => rfl
  | some h => rw [h]

end Option.Rel

namespace Except

variable {ε α β : Type} {f : α → Except ε β} {xs : List α} {ys : List β}

theorem bind_eq_ok {x : Except ε α} {b : β} :
    (x >>= f) = .ok b ↔ ∃ a, x = .ok a ∧ f a = .ok b := by
  cases x with
  | error e => simp [bind, Except.bind]
  | ok a => simp [bind, Except.bind]

theorem pure_eq_ok {a b : α} : (pure a : Except ε α) = .ok b ↔ a = b := by
  simp [pure, Except.pure]

theorem map_eq_ok {x : Except ε α} {f : α → β} {b : β} :
    x.map f = .ok b ↔ ∃ a, x = .ok a ∧ f a = b := by
  cases x with
  | error e => simp [Except.map]
  | ok a => simp [Except.map]

theorem eq_ok_of_toOption {x : Except ε α} {a : α} (h : x.toOption = some a) : x = .ok a := by
  cases x with
  | error e => cases h
  | ok b =>
    cases h
    rfl

theorem forall₂_of_mapM :
    ∀ {xs : List α} {ys : List β}, xs.mapM f = .ok ys → List.Forall₂ (fun x y => f x = .ok y) xs ys
  | [], ys, h => by
    rw [List.mapM_nil, pure_eq_ok] at h
    subst h
    exact .nil
  | x :: xs, ys, h => by
    rw [List.mapM_cons, bind_eq_ok] at h
    obtain ⟨y, hy, h⟩ := h
    rw [bind_eq_ok] at h
    obtain ⟨zs, hzs, h⟩ := h
    rw [pure_eq_ok] at h
    subst h
    exact .cons hy (forall₂_of_mapM hzs)

/-- What is seen of each result of a list of computations is seen of the list. -/
theorem map_eq_of_mapM {γ : Type} {g : β → γ} {k : α → γ} (h : xs.mapM f = .ok ys)
    (hstep : ∀ x y, f x = .ok y → g y = k x) : ys.map g = xs.map k := by
  have hall := forall₂_of_mapM h
  clear h
  induction hall with
  | nil => rfl
  | cons hxy _ ih => rw [List.map_cons, List.map_cons, hstep _ _ hxy, ih]

/-- Every result of a list of computations is the result of one of them. -/
theorem exists_of_mem_mapM (h : xs.mapM f = .ok ys) {y : β} (hy : y ∈ ys) : ∃ x ∈ xs, f x = .ok y :=
  (forall₂_of_mapM h).exists_of_mem_right hy

/-- Every computation of a list has its result among the results. -/
theorem exists_result_of_mem_mapM (h : xs.mapM f = .ok ys) {x : α} (hx : x ∈ xs) :
    ∃ y ∈ ys, f x = .ok y :=
  (forall₂_of_mapM h).exists_of_mem_left hx

theorem exists_of_mem_option_mapM {o : Option α} {r : Option β} (h : o.mapM f = .ok r) {b : β}
    (hb : b ∈ r) : ∃ a ∈ o, f a = .ok b := by
  cases o with
  | none =>
    change pure none = _ at h
    rw [pure_eq_ok] at h
    subst h
    simp at hb
  | some a =>
    change f a >>= (fun b => pure (some b)) = _ at h
    rw [bind_eq_ok] at h
    obtain ⟨b', hb', h⟩ := h
    rw [pure_eq_ok] at h
    subst h
    obtain rfl : b' = b := by simpa using hb
    exact ⟨a, rfl, hb'⟩

/-- A list of computations succeeds when each of them does. -/
theorem exists_mapM_iff : (∃ ys, xs.mapM f = .ok ys) ↔ ∀ x ∈ xs, ∃ y, f x = .ok y := by
  refine ⟨fun ⟨ys, hys⟩ x hx => ?_, fun h => ?_⟩
  · obtain ⟨y, -, hy⟩ := exists_result_of_mem_mapM hys hx
    exact ⟨y, hy⟩
  · induction xs with
    | nil => exact ⟨[], rfl⟩
    | cons x xs ih =>
      obtain ⟨y, hy⟩ := h x List.mem_cons_self
      obtain ⟨ys, hys⟩ := ih fun z hz => h z (List.mem_cons_of_mem x hz)
      refine ⟨y :: ys, ?_⟩
      rw [List.mapM_cons]
      exact bind_eq_ok.mpr ⟨y, hy, bind_eq_ok.mpr ⟨ys, hys, rfl⟩⟩

/-- A list of computations that all succeed has their results. -/
theorem mapM_eq_ok {g : α → β} (h : ∀ x ∈ xs, f x = .ok (g x)) :
    xs.mapM f = .ok (xs.map g) := by
  induction xs with
  | nil => rfl
  | cons x xs ih =>
    have htail := ih fun y hy => h y (List.mem_cons_of_mem x hy)
    rw [List.mapM_cons, h x List.mem_cons_self, htail]
    rfl

/-- A list of computations fails when its first one does. -/
theorem mapM_eq_error {e : ε} (hxs : xs ≠ []) (h : ∀ x ∈ xs, f x = .error e) :
    xs.mapM f = .error e := by
  cases xs with
  | nil => exact absurd rfl hxs
  | cons x xs =>
    rw [List.mapM_cons, h x List.mem_cons_self]
    rfl

theorem exists_option_mapM_iff {o : Option α} :
    (∃ r, o.mapM f = .ok r) ↔ ∀ a ∈ o, ∃ b, f a = .ok b := by
  cases o with
  | none => exact ⟨fun _ _ ha => absurd ha (Option.not_mem_none _), fun _ => ⟨none, rfl⟩⟩
  | some a =>
    constructor
    · rintro ⟨r, hr⟩ _ ⟨⟩
      change f a >>= (fun b => pure (some b)) = _ at hr
      obtain ⟨b, hb, -⟩ := bind_eq_ok.mp hr
      exact ⟨b, hb⟩
    · intro h
      obtain ⟨b, hb⟩ := h a rfl
      exact ⟨some b, bind_eq_ok.mpr ⟨b, hb, rfl⟩⟩

/-- **A fold keeps what every step keeps.** -/
theorem foldlM_induction {f : β → α → Except ε β} (P : β → Prop) :
    ∀ {xs : List α} {b b' : β}, (∀ b, P b → ∀ x ∈ xs, ∀ b', f b x = .ok b' → P b') → P b →
      xs.foldlM f b = .ok b' → P b'
  | [], b, b', _, hb, h => by
    rw [List.foldlM_nil, pure_eq_ok] at h
    exact h ▸ hb
  | x :: xs, b, b', hstep, hb, h => by
    rw [List.foldlM_cons, bind_eq_ok] at h
    obtain ⟨c, hc, h⟩ := h
    exact foldlM_induction P (fun b hb y hy => hstep b hb y (List.mem_cons_of_mem x hy))
      (hstep b hb x List.mem_cons_self c hc) h

/-! ## Errors of a computation -/

/-- All errors of a computation satisfy `P`. -/
def FailsOnly (P : ε → Prop) (x : Except ε α) : Prop := ∀ e, x = .error e → P e

namespace FailsOnly

variable {P : ε → Prop} {x : Except ε α}

theorem ok (a : α) : FailsOnly P (.ok a : Except ε α) := nofun

theorem error {e : ε} (h : P e) : FailsOnly P (.error e : Except ε α) := by
  rintro _ ⟨⟩
  exact h

theorem mono {Q : ε → Prop} (h : FailsOnly P x) (hPQ : ∀ e, P e → Q e) : FailsOnly Q x :=
  fun e he => hPQ e (h e he)

theorem bind (hx : FailsOnly P x) (hf : ∀ a, FailsOnly P (f a)) :
    FailsOnly P (x >>= f) := by
  cases x with
  | error e => exact error (hx e rfl)
  | ok a => exact hf a

theorem ite {c : Prop} [Decidable c] {y : Except ε α} (hx : FailsOnly P x) (hy : FailsOnly P y) :
    FailsOnly P (if c then x else y) := by
  split
  · exact hx
  · exact hy

theorem mapM (h : ∀ a, FailsOnly P (f a)) :
    ∀ xs : List α, FailsOnly P (xs.mapM f)
  | [] => by
    rw [List.mapM_nil]
    exact ok []
  | a :: xs => by
    rw [List.mapM_cons]
    exact (h a).bind fun b => (mapM h xs).bind fun bs => ok (b :: bs)

theorem option_mapM (h : ∀ a, FailsOnly P (f a)) (o : Option α) :
    FailsOnly P (o.mapM f) := by
  cases o with
  | none => exact ok none
  | some a => exact (h a).bind fun b => ok (some b)

theorem foldlM {f : β → α → Except ε β} (h : ∀ b a, FailsOnly P (f b a)) :
    ∀ (xs : List α) (b : β), FailsOnly P (xs.foldlM f b)
  | [], b => ok b
  | a :: xs, b => by
    rw [List.foldlM_cons]
    exact (h b a).bind (foldlM h xs)

end FailsOnly

/-! ## Two computations side by side -/

variable {γ δ ι : Type} {is : List ι} {o : Option ι} {k : ι → Except ε α}
  {k' : ι → Except ε β}

/-- A way to compare computations by a relation of their results: the two computations can go on as long
as they do so in ways that compare for all related results. -/
structure Lifting (ε : Type) where
  rel : ∀ {α β : Type}, (α → β → Prop) → Except ε α → Except ε β → Prop
  ok : ∀ {α β : Type} {R : α → β → Prop} {a : α} {b : β}, R a b → rel R (.ok a) (.ok b)
  bind : ∀ {α β γ δ : Type} {R : α → β → Prop} {S : γ → δ → Prop} {x : Except ε α} {y : Except ε β}
    {k : α → Except ε γ} {k' : β → Except ε δ},
    rel R x y → (∀ a b, R a b → rel S (k a) (k' b)) → rel S (x >>= k) (y >>= k')

namespace Lifting

variable (M : Lifting ε) {R : α → β → Prop} {S : γ → δ → Prop}

/-- Results are compared by a function that turns the second one into the first. -/
abbrev Mirrors (f : β → α) (x : Except ε α) (y : Except ε β) : Prop := M.rel (fun a b => f b = a) x y

theorem map {x : Except ε α} {y : Except ε β} {k : α → γ} {k' : β → δ} (h : M.rel R x y)
    (hk : ∀ a b, R a b → S (k a) (k' b)) : M.rel S (x.map k) (y.map k') := by
  have hbind : M.rel S (x >>= fun a => .ok (k a)) (y >>= fun b => .ok (k' b)) :=
    M.bind h fun a b hab => M.ok (hk a b hab)
  cases x <;> cases y <;> exact hbind

theorem mapM {κ : Type} {I : ι → κ → Prop} {k : ι → Except ε α} {k' : κ → Except ε β}
    (hk : ∀ i j, I i j → M.rel R (k i) (k' j)) {js : List κ}
    (h : List.Forall₂ I is js) : M.rel (List.Forall₂ R) (is.mapM k) (js.mapM k') := by
  induction h with
  | nil =>
    rw [List.mapM_nil, List.mapM_nil]
    exact M.ok .nil
  | @cons i j is js hij _ ih =>
    rw [List.mapM_cons, List.mapM_cons]
    refine M.bind (hk i j hij) fun a b hab => ?_
    exact M.bind ih fun as bs habs => M.ok (.cons hab habs)

theorem foldlM {κ : Type} {I : ι → κ → Prop} {k : α → ι → Except ε α} {k' : β → κ → Except ε β}
    (hk : ∀ i j, I i j → ∀ a b, R a b → M.rel R (k a i) (k' b j)) {js : List κ}
    (h : List.Forall₂ I is js) :
    ∀ {a : α} {b : β}, R a b → M.rel R (is.foldlM k a) (js.foldlM k' b) := by
  induction h with
  | nil => exact fun hab => M.ok hab
  | @cons i j is js hij _ ih =>
    intro a b hab
    rw [List.foldlM_cons, List.foldlM_cons]
    exact M.bind (hk i j hij a b hab) fun a' b' hab' => ih hab'

/-- The same list gone through by two computations. -/
theorem mapM_self (hk : ∀ i ∈ is, M.rel R (k i) (k' i)) :
    M.rel (List.Forall₂ R) (is.mapM k) (is.mapM k') := by
  refine M.mapM (I := fun i j => i = j ∧ i ∈ is) ?_ (List.forall₂_same.mpr fun i hi => ⟨rfl, hi⟩)
  rintro i _ ⟨rfl, hi⟩
  exact hk i hi

@[inherit_doc mapM_self]
theorem foldlM_self {k : α → ι → Except ε α} {k' : β → ι → Except ε β}
    (hk : ∀ i ∈ is, ∀ a b, R a b → M.rel R (k a i) (k' b i)) {a : α} {b : β} (h : R a b) :
    M.rel R (is.foldlM k a) (is.foldlM k' b) := by
  refine M.foldlM (I := fun i j => i = j ∧ i ∈ is) ?_ (List.forall₂_same.mpr fun i hi => ⟨rfl, hi⟩) h
  rintro i _ ⟨rfl, hi⟩
  exact hk i hi

theorem option_mapM (hk : ∀ i ∈ o, M.rel R (k i) (k' i)) :
    M.rel (Option.Rel R) (o.mapM k) (o.mapM k') := by
  cases o with
  | none => exact M.ok .none
  | some i => exact M.bind (hk i rfl) fun _ _ hab => M.ok (.some hab)

end Lifting

/-- Whenever the first computation succeeds, so does the second, and `R` relates the results; the errors
of the first satisfy `P`. -/
structure Follows (P : ε → Prop) (R : α → β → Prop) (x : Except ε α) (y : Except ε β) : Prop where
  failsOnly : FailsOnly P x
  succeeds : ∀ a, x = .ok a → ∃ b, y = .ok b ∧ R a b

namespace Follows

variable {P : ε → Prop} {R : α → β → Prop} {S : γ → δ → Prop} {x : Except ε α} {y : Except ε β}

theorem ok {a : α} {b : β} (h : R a b) : Follows P R (.ok a) (.ok b) := by
  refine ⟨.ok a, ?_⟩
  rintro _ ⟨⟩
  exact ⟨b, rfl, h⟩

theorem error {e : ε} (h : P e) : Follows P R (.error e) y := ⟨.error h, nofun⟩

theorem bind {k : α → Except ε γ} {k' : β → Except ε δ} (h : Follows P R x y)
    (hk : ∀ a b, R a b → Follows P S (k a) (k' b)) : Follows P S (x >>= k) (y >>= k') := by
  cases x with
  | error e => exact error (h.failsOnly e rfl)
  | ok a =>
    obtain ⟨b, rfl, hab⟩ := h.succeeds a rfl
    exact hk a b hab

/-- A computation follows itself. -/
theorem refl {R : α → α → Prop} (hx : FailsOnly P x) (hR : ∀ a, R a a) : Follows P R x x :=
  ⟨hx, fun a ha => ⟨a, ha, hR a⟩⟩

end Follows

def Lifting.follows (P : ε → Prop) : Lifting ε where
  rel := Follows P
  ok := .ok
  bind := .bind

/-- Whenever the first computation succeeds, so does the second, and its result is turned into that of
the first by `f`. -/
def Mirrors (f : β → α) (x : Except ε α) (y : Except ε β) : Prop :=
  ∀ a, x = .ok a → ∃ b, y = .ok b ∧ f b = a

theorem Follows.mirrors {P : ε → Prop} {R : α → β → Prop} {f : β → α} {x : Except ε α}
    {y : Except ε β} (h : Follows P R x y) (hR : ∀ a b, R a b → f b = a) : Mirrors f x y := by
  intro a ha
  obtain ⟨b, hb, hab⟩ := h.succeeds a ha
  exact ⟨b, hb, hR a b hab⟩

namespace Mirrors

variable {f : β → α} {g : δ → γ} {x : Except ε α} {y : Except ε β}

theorem ok {a : α} {b : β} (h : f b = a) : Mirrors f (.ok a : Except ε α) (.ok b) := by
  rintro _ ⟨⟩
  exact ⟨b, rfl, h⟩

theorem error (e : ε) : Mirrors f (.error e) y := nofun

theorem follows {R : α → β → Prop} (h : Mirrors f x y) (hR : ∀ b, R (f b) b) :
    Follows (fun _ => True) R x y := by
  refine ⟨fun _ _ => trivial, fun a ha => ?_⟩
  obtain ⟨b, hb, rfl⟩ := h a ha
  exact ⟨b, hb, hR b⟩

theorem mapM (h : ∀ i ∈ is, Mirrors f (k i) (k' i)) :
    Mirrors (List.map f) (is.mapM k) (is.mapM k') := by
  have hall : Follows (fun _ => True) (List.Forall₂ fun a b => f b = a) (is.mapM k) (is.mapM k') :=
    (Lifting.follows _).mapM_self fun i hi => (h i hi).follows fun _ => rfl
  refine hall.mirrors fun as bs habs => ?_
  rw [← List.forall₂_eq_eq_eq, List.forall₂_map_left_iff]
  exact habs.flip

theorem option_mapM (h : ∀ i ∈ o, Mirrors f (k i) (k' i)) :
    Mirrors (Option.map f) (o.mapM k) (o.mapM k') := by
  have hall : Follows (fun _ => True) (Option.Rel fun a b => f b = a) (o.mapM k) (o.mapM k') :=
    (Lifting.follows _).option_mapM fun i hi => (h i hi).follows fun _ => rfl
  refine hall.mirrors fun a b hab => ?_
  cases hab with
  | none => rfl
  | some hab => rw [Option.map_some, hab]

end Mirrors

/-- Both computations fail with the same error, or both succeed and `R` relates the results. -/
inductive Agree (R : α → β → Prop) : Except ε α → Except ε β → Prop
  | ok {a : α} {b : β} (h : R a b) : Agree R (.ok a) (.ok b)
  | error (e : ε) : Agree R (.error e) (.error e)

namespace Agree

variable {R : α → β → Prop} {S : γ → δ → Prop} {x : Except ε α} {y : Except ε β}

theorem refl {R : α → α → Prop} (h : ∀ a, R a a) (x : Except ε α) : Agree R x x := by
  cases x with
  | error e => exact .error e
  | ok a => exact .ok (h a)

theorem mono {R' : α → β → Prop} (h : Agree R x y) (hR : ∀ a b, R a b → R' a b) : Agree R' x y := by
  cases h with
  | ok h => exact .ok (hR _ _ h)
  | error e => exact .error e

theorem with_results (h : Agree R x y) :
    Agree (fun a b => R a b ∧ x = .ok a ∧ y = .ok b) x y := by
  cases h with
  | ok h => exact .ok ⟨h, rfl, rfl⟩
  | error e => exact .error e

theorem bind {k : α → Except ε γ} {k' : β → Except ε δ} (h : Agree R x y)
    (hk : ∀ a b, R a b → Agree S (k a) (k' b)) : Agree S (x >>= k) (y >>= k') := by
  cases h with
  | ok h => exact hk _ _ h
  | error e => exact .error e

/-- Two computations that agree with a third one. -/
theorem join {T : γ → β → Prop} {z : Except ε γ} (h : Agree R x y) (h' : Agree T z y) :
    Agree (fun a c => ∃ b, R a b ∧ T c b) x z := by
  cases h with
  | ok h =>
    cases h' with
    | ok h' => exact .ok ⟨_, h, h'⟩
  | error e =>
    cases h' with
    | error => exact .error e

theorem map {k : α → γ} {k' : β → δ} (h : Agree R x y) (hk : ∀ a b, R a b → S (k a) (k' b)) :
    Agree S (x.map k) (y.map k') := by
  cases h with
  | ok h => exact .ok (hk _ _ h)
  | error e => exact .error e

theorem ite {c c' : Prop} [Decidable c] [Decidable c'] {x' : Except ε α} {y' : Except ε β}
    (hc : c ↔ c') (h : c → Agree R x y) (h' : ¬c → Agree R x' y') :
    Agree R (if c then x else x') (if c' then y else y') := by
  by_cases hpos : c
  · rw [if_pos hpos, if_pos (hc.mp hpos)]
    exact h hpos
  · rw [if_neg hpos, if_neg (mt hc.mpr hpos)]
    exact h' hpos

/-- Computations of which any two agree all fail with the same error, or all succeed. -/
theorem all_error_or_ok [Nonempty ι] {f : ι → Except ε α}
    (h : ∀ i j, Agree (fun _ _ => True) (f i) (f j)) :
    (∃ e, ∀ i, f i = .error e) ∨ ∃ g : ι → α, ∀ i, f i = .ok (g i) := by
  obtain ⟨i⟩ := ‹Nonempty ι›
  cases hi : f i with
  | error e =>
    refine .inl ⟨e, fun j => ?_⟩
    have hj := h i j
    rw [hi] at hj
    generalize f j = y at hj ⊢
    cases hj
    rfl
  | ok a =>
    have hok : ∀ j, ∃ b, f j = .ok b := by
      intro j
      have hj := h i j
      rw [hi] at hj
      generalize f j = y at hj ⊢
      cases hj
      exact ⟨_, rfl⟩
    choose g hg using hok
    exact .inr ⟨g, hg⟩

end Agree

def Lifting.agree : Lifting ε where
  rel := Agree
  ok := .ok
  bind := .bind

theorem Agree.mapM {R : α → β → Prop} (h : ∀ i ∈ is, Agree R (k i) (k' i)) :
    Agree (List.Forall₂ R) (is.mapM k) (is.mapM k') :=
  Lifting.agree.mapM_self h

theorem Agree.foldlM {R : α → β → Prop} {k : α → ι → Except ε α} {k' : β → ι → Except ε β} {a : α}
    {b : β} (hstep : ∀ i ∈ is, ∀ a b, R a b → Agree R (k a i) (k' b i)) (h : R a b) :
    Agree R (is.foldlM k a) (is.foldlM k' b) :=
  Lifting.agree.foldlM_self hstep h

/-- Both computations fail and `E` relates the errors, or both succeed and `R` relates the results. -/
inductive Related (E : ε → ε → Prop) (R : α → β → Prop) : Except ε α → Except ε β → Prop
  | ok {a : α} {b : β} (h : R a b) : Related E R (.ok a) (.ok b)
  | error {e e' : ε} (h : E e e') : Related E R (.error e) (.error e')

namespace Related

variable {E : ε → ε → Prop} {R : α → β → Prop} {S : γ → δ → Prop} {x : Except ε α}
  {y : Except ε β}

theorem refl {R : α → α → Prop} (hE : ∀ e, E e e) (hR : ∀ a, R a a) (x : Except ε α) :
    Related E R x x := by
  cases x with
  | error e => exact .error (hE e)
  | ok a => exact .ok (hR a)

theorem mono {R' : α → β → Prop} (h : Related E R x y) (hR : ∀ a b, R a b → R' a b) :
    Related E R' x y := by
  cases h with
  | ok h => exact .ok (hR _ _ h)
  | error h => exact .error h

theorem bind {k : α → Except ε γ} {k' : β → Except ε δ} (h : Related E R x y)
    (hk : ∀ a b, R a b → Related E S (k a) (k' b)) : Related E S (x >>= k) (y >>= k') := by
  cases h with
  | ok h => exact hk _ _ h
  | error h => exact .error h

end Related

def Lifting.related (E : ε → ε → Prop) : Lifting ε where
  rel := Related E
  ok := .ok
  bind := .bind

section

variable {E : ε → ε → Prop} {R : α → β → Prop} {κ : Type} {I : ι → κ → Prop} {js : List κ}

theorem Related.mapM {k : ι → Except ε α} {k' : κ → Except ε β}
    (hk : ∀ i j, I i j → Related E R (k i) (k' j)) (h : List.Forall₂ I is js) :
    Related E (List.Forall₂ R) (is.mapM k) (js.mapM k') :=
  (Lifting.related E).mapM hk h

theorem Related.mapM_self (hk : ∀ i ∈ is, Related E R (k i) (k' i)) :
    Related E (List.Forall₂ R) (is.mapM k) (is.mapM k') :=
  (Lifting.related E).mapM_self hk

theorem Related.foldlM {k : α → ι → Except ε α} {k' : β → κ → Except ε β} {a : α} {b : β}
    (hk : ∀ i j, I i j → ∀ a b, R a b → Related E R (k a i) (k' b j)) (h : List.Forall₂ I is js)
    (hab : R a b) : Related E R (is.foldlM k a) (js.foldlM k' b) :=
  (Lifting.related E).foldlM hk h hab

end

end Except
