import Mathlib.Data.List.TakeWhile
import GraphSql.Text.Blank
import GraphSql.Text.Search

/-!
# Trimming, cutting and joining

Trimming finds the one way to write a text as blanks, a part that neither starts nor ends with a blank,
and blanks again (`trimChars_append`, `exists_trimChars`).  A text is cut at a separator by going from one
to the next (`splitChars_append`).  So the pieces of a list are found again when it is cut at its
separators and the blanks around these are trimmed away (`Listed.map_trimChars`).
-/

namespace GraphSql.Text

variable {cs : List Char} {sep : Char}

/-! ## Blanks at the ends -/

/-- A text that neither starts nor ends with a blank. -/
structure Trimmed (cs : List Char) : Prop where
  head : ∀ c ∈ cs.head?, isBlank c = false
  last : ∀ c ∈ cs.getLast?, isBlank c = false

theorem trimmed_of_dark (h : ∀ c ∈ cs, isBlank c = false) : Trimmed cs :=
  ⟨fun c hc => h c (List.mem_of_mem_head? hc), fun c hc => h c (List.mem_of_mem_getLast? hc)⟩

theorem dropWhile_isBlank_eq_nil (h : ∀ c ∈ cs, isBlank c = true) : cs.dropWhile isBlank = [] :=
  List.dropWhile_eq_nil_iff.mpr h

theorem dropWhile_eq_self {p : Char → Bool} (h : ∀ c ∈ cs.head?, p c = false) :
    cs.dropWhile p = cs := by
  cases cs with
  | nil => rfl
  | cons c cs => exact List.dropWhile_cons_of_neg (by simp [h c rfl])

/-- **Blanks around a trimmed text are trimmed away.** -/
theorem trimChars_append {before after : List Char} (hbefore : ∀ c ∈ before, isBlank c = true)
    (hafter : ∀ c ∈ after, isBlank c = true) (h : Trimmed cs) :
    trimChars (before ++ (cs ++ after)) = cs := by
  rw [trimChars, List.dropWhile_append_of_pos hbefore]
  cases cs with
  | nil => rw [List.nil_append, dropWhile_isBlank_eq_nil hafter]; rfl
  | cons c cs =>
    have hstart : ((c :: cs) ++ after).dropWhile isBlank = (c :: cs) ++ after :=
      dropWhile_eq_self fun d hd => h.head d hd
    have hend : ∀ d ∈ (c :: cs).reverse.head?, isBlank d = false := by
      rw [List.head?_reverse]
      exact h.last
    rw [hstart, dropEndWhile, List.reverse_append,
      List.dropWhile_append_of_pos fun d hd => hafter d (List.mem_reverse.mp hd),
      dropWhile_eq_self hend, List.reverse_reverse]

/-- A text is what is left when it is trimmed, with blanks around it. -/
theorem exists_trimChars (text : List Char) : ∃ before after,
    (∀ c ∈ before, isBlank c = true) ∧ (∀ c ∈ after, isBlank c = true) ∧ Trimmed (trimChars text) ∧
      text = before ++ (trimChars text ++ after) := by
  have hcut : ∀ cs : List Char, (∀ c ∈ cs.takeWhile isBlank, isBlank c = true) ∧
      (∀ c ∈ (cs.dropWhile isBlank).head?, isBlank c = false) ∧
      cs = cs.takeWhile isBlank ++ cs.dropWhile isBlank := by
    intro cs
    refine ⟨fun c hc => List.mem_takeWhile_imp hc, fun c hc => ?_,
      List.takeWhile_append_dropWhile.symm⟩
    have := List.head?_dropWhile_not isBlank cs
    rw [hc] at this
    exact this
  obtain ⟨hbefore, hhead, hstart⟩ := hcut text
  obtain ⟨hafter, hlast, hend⟩ := hcut (text.dropWhile isBlank).reverse
  generalize text.takeWhile isBlank = before at hbefore hstart
  have hsplit : text.dropWhile isBlank =
      trimChars text ++ ((text.dropWhile isBlank).reverse.takeWhile isBlank).reverse := by
    rw [trimChars, dropEndWhile, ← List.reverse_append, ← hend, List.reverse_reverse]
  refine ⟨before, _, hbefore, fun c hc => hafter c (List.mem_reverse.mp hc), ⟨?_, ?_⟩, ?_⟩
  · intro c hc
    refine hhead c ?_
    rw [Option.mem_def] at hc
    rw [hsplit, List.head?_append, hc, Option.some_or, Option.mem_some]
  · intro c hc
    rw [trimChars, dropEndWhile, List.getLast?_reverse] at hc
    exact hlast c hc
  · rw [← hsplit]
    exact hstart

/-! ## Separators -/

theorem splitChars_of_notMem (h : sep ∉ cs) : splitChars sep cs = [cs] := by
  induction cs with
  | nil => rfl
  | cons c cs ih =>
    rw [List.mem_cons, not_or] at h
    obtain ⟨hc, hcs⟩ := h
    rw [splitChars, if_neg fun he => hc he.symm, ih hcs]

/-- What stands before a separator is a piece of its own. -/
theorem splitChars_append (h : sep ∉ cs) (rest : List Char) :
    splitChars sep (cs ++ sep :: rest) = cs :: splitChars sep rest := by
  induction cs with
  | nil => rw [List.nil_append, splitChars, if_pos rfl]
  | cons c cs ih =>
    rw [List.mem_cons, not_or] at h
    obtain ⟨hc, hcs⟩ := h
    rw [List.cons_append, splitChars, if_neg fun he => hc he.symm, ih hcs]

/-- A text in which pieces stand between separators, with any blanks around these.  No piece has a
separator in it, or a blank at its ends. -/
inductive Listed (sep : Char) : List (List Char) → List Char → Prop
  | single {piece : List Char} : sep ∉ piece → Trimmed piece → Listed sep [piece] piece
  | cons {piece before after rest : List Char} {pieces : List (List Char)} :
      sep ∉ piece → Trimmed piece → (∀ c ∈ before, isBlank c = true) → (∀ c ∈ after, isBlank c = true) →
      Listed sep pieces rest → Listed sep (piece :: pieces) (piece ++ (before ++ sep :: (after ++ rest)))

/-- **The pieces of a list are found between the separators**, whatever blanks come first. -/
theorem Listed.map_trimChars (hsep : isBlank sep = false) {pieces : List (List Char)}
    {text : List Char} (h : Listed sep pieces text) {blanks : List Char}
    (hblanks : ∀ c ∈ blanks, isBlank c = true) :
    (splitChars sep (blanks ++ text)).map trimChars = pieces := by
  have hfree : ∀ {cs : List Char}, (∀ c ∈ cs, isBlank c = true) → sep ∉ cs := by
    intro cs hcs hmem
    rw [hcs sep hmem] at hsep
    cases hsep
  induction h generalizing blanks with
  | @single piece hpiece htrimmed =>
    have hnone : sep ∉ blanks ++ piece := by
      rw [List.mem_append, not_or]
      exact ⟨hfree hblanks, hpiece⟩
    have htrim := trimChars_append hblanks (List.forall_mem_nil _) htrimmed
    rw [List.append_nil] at htrim
    rw [splitChars_of_notMem hnone, List.map_singleton, htrim]
  | @cons piece before after rest pieces hpiece htrimmed hbefore hafter _ ih =>
    have hnone : sep ∉ blanks ++ (piece ++ before) := by
      rw [List.mem_append, List.mem_append, not_or, not_or]
      exact ⟨hfree hblanks, hpiece, hfree hbefore⟩
    rw [← List.append_assoc piece, ← List.append_assoc blanks, splitChars_append hnone, List.map_cons,
      trimChars_append hblanks hbefore htrimmed, ih hafter]

theorem map_trim_splitAt (hsep : isBlank sep = false) {pieces : List String} {text : String}
    (h : Listed sep (pieces.map String.toList) text.toList) :
    (splitAt sep text).map trim = pieces := by
  have hsplit := congrArg (List.map String.ofList) (h.map_trimChars hsep (List.forall_mem_nil _))
  rw [List.nil_append, List.map_map, List.map_map] at hsplit
  rw [splitAt, List.map_map]
  simpa [Function.comp_def, trim] using hsplit

theorem toList_join_cons (sep s t : String) (rest : List String) :
    (join sep (s :: t :: rest)).toList = s.toList ++ (sep.toList ++ (join sep (t :: rest)).toList) := by
  rw [join, String.toList_append, String.toList_append, List.append_assoc]

theorem mem_join {c : Char} {sep : String} {ss : List String} (h : c ∈ (join sep ss).toList) :
    c ∈ sep.toList ∨ ∃ s ∈ ss, c ∈ s.toList := by
  induction ss with
  | nil => cases h
  | cons s ss ih =>
    cases ss with
    | nil => exact .inr ⟨s, List.mem_cons_self, h⟩
    | cons t ss =>
      rw [toList_join_cons, List.mem_append, List.mem_append] at h
      rcases h with h | h | h
      · exact .inr ⟨s, List.mem_cons_self, h⟩
      · exact .inl h
      · refine (ih h).imp id fun hmem => ?_
        obtain ⟨u, hu, hc⟩ := hmem
        exact ⟨u, List.mem_cons_of_mem s hu, hc⟩

/-- Texts that are joined by commas and blanks form a list. -/
theorem listed_join {ss : List String} (hne : ss ≠ [])
    (h : ∀ s ∈ ss, ',' ∉ s.toList ∧ Trimmed s.toList) :
    Listed ',' (ss.map String.toList) (join ", " ss).toList := by
  induction ss with
  | nil => exact absurd rfl hne
  | cons s ss ih =>
    obtain ⟨hcomma, htrimmed⟩ := h s List.mem_cons_self
    cases ss with
    | nil => exact .single hcomma htrimmed
    | cons t ss =>
      have hrest := ih (List.cons_ne_nil _ _) fun u hu => h u (List.mem_cons_of_mem s hu)
      have hblank : ∀ c ∈ [' '], isBlank c = true := by
        intro c hc
        rw [List.mem_singleton.mp hc]
        decide
      rw [toList_join_cons]
      exact .cons hcomma htrimmed (List.forall_mem_nil _) hblank hrest

/-! ## Starts and ends -/

theorem startsWith_append {start : List Char} {s : String} (h : start <+: s.toList)
    (t : String) : start <+: (s ++ t).toList := by
  rw [String.toList_append]
  exact h.trans (List.prefix_append _ _)

theorem startsWith_join {start : List Char} {s : String} (h : start <+: s.toList)
    (sep : String) (ss : List String) : start <+: (join sep (s :: ss)).toList := by
  cases ss with
  | nil => exact h
  | cons t ts => exact startsWith_append (startsWith_append h sep) _

theorem getLast?_append {t : String} {c : Char} (h : t.toList.getLast? = some c) (s : String) :
    (s ++ t).toList.getLast? = some c := by
  rw [String.toList_append, List.getLast?_append, h]
  rfl

end GraphSql.Text
