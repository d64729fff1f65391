import GraphSql.Column
import GraphSql.Proofs.Outcome
import GraphSql.Proofs.Text
import GraphSql.Proofs.Words

/-!
# Lists of columns

Merging keeps the first column of each name: the names that are left are different (`nodup_distinct`),
columns in front stay in front (`isPrefix_distinct`), and a name is found where it was found before
(`find?_distinct`).  Merging one list after another adds what the first has no name for
(`distinct_append`), so it does not matter which groups are merged beforehand
(`merge_append_merge_cons`).  A list of columns that is written out as definitions is read back as it
was (`ofDefinitions_definitions`), if names have neither blanks nor commas.
-/

namespace GraphSql.Column

variable {cs : List Column}

/-! ## Columns with different names -/

/-- The names of columns in small letters. -/
def lowerNames (cs : List Column) : List String := cs.map fun c => Text.lower c.name

theorem sameName_iff {c d : Column} :
    Text.sameName c.name d.name = true ↔ Text.lower c.name = Text.lower d.name :=
  beq_iff_eq

/-- **Merged columns have different names**, letter case apart. -/
theorem nodup_distinct (cs : List Column) : (lowerNames (distinct cs)).Nodup := by
  induction cs with
  | nil => exact List.nodup_nil
  | cons c cs ih =>
    rw [distinct, lowerNames, List.map_cons, List.nodup_cons]
    refine ⟨fun hmem => ?_, ih.sublist (List.filter_sublist.map _)⟩
    obtain ⟨d, hd, hname⟩ := List.mem_map.mp hmem
    obtain ⟨-, hd⟩ := List.mem_filter.mp hd
    rw [sameName_iff.mpr hname] at hd
    cases hd

/-- **Columns with different names stay in front when others are merged into them.** -/
theorem isPrefix_distinct (h : (lowerNames cs).Nodup) (ds : List Column) :
    cs <+: distinct (cs ++ ds) := by
  induction cs with
  | nil => exact List.nil_prefix
  | cons c cs ih =>
    rw [lowerNames, List.map_cons, List.nodup_cons] at h
    obtain ⟨hc, hcs⟩ := h
    have hkeep : cs.filter (fun d => !Text.sameName d.name c.name) = cs := by
      rw [List.filter_eq_self]
      intro d hd
      rw [Bool.not_eq_true', Bool.eq_false_iff, Ne, sameName_iff]
      exact fun hname => hc (List.mem_map.mpr ⟨d, hd, hname⟩)
    have hrest := (ih hcs).filter fun d => !Text.sameName d.name c.name
    rw [hkeep] at hrest
    exact List.cons_prefix_cons.mpr ⟨rfl, hrest⟩

/-- **A name is found in merged columns where it is found first.** -/
theorem find?_distinct (cs : List Column) (name : String) :
    find? (distinct cs) name = find? cs name := by
  induction cs with
  | nil => rfl
  | cons c cs ih =>
    rw [distinct, find?, find?, List.find?_cons, List.find?_cons]
    split
    · rfl
    · rename_i hc
      -- no column that was dropped for the sake of `c` has the name that is looked up
      have hdropped : ∀ d : Column, decide ((!Text.sameName d.name c.name) = true ∧
          Text.sameName d.name name = true) = Text.sameName d.name name := by
        intro d
        cases hd : Text.sameName d.name name with
        | false => simp
        | true =>
          have hne : Text.sameName d.name c.name = false := by
            rw [Text.sameName, beq_iff_eq.mp hd, Bool.beq_comm]
            exact hc
          simp [hne]
      rw [List.find?_filter, funext hdropped]
      exact ih

/-- The first of the columns that have the given name, letter case apart. -/
def FirstNamed (cs : List Column) (name : String) (c : Column) : Prop :=
  Text.lower c.name = Text.lower name ∧
    ∃ before after, cs = before ++ c :: after ∧ ∀ d ∈ before, Text.lower d.name ≠ Text.lower name

theorem find?_eq_some_iff {name : String} {c : Column} :
    find? cs name = some c ↔ FirstNamed cs name c := by
  rw [find?, List.find?_eq_some_iff_append, FirstNamed]
  simp [Text.sameName]

/-- **Each column is found among the merged ones under its name**, as it was declared first. -/
theorem exists_firstNamed {c : Column} (h : c ∈ cs) :
    ∃ first, FirstNamed cs c.name first ∧ find? (distinct cs) c.name = some first := by
  cases hfind : find? cs c.name with
  | none => exact absurd (beq_self_eq_true _) (List.find?_eq_none.mp hfind c h)
  | some first => exact ⟨first, find?_eq_some_iff.mp hfind, by rw [find?_distinct, hfind]⟩

/-! ## Merging lists that are merged -/

theorem distinct_sublist (cs : List Column) : (distinct cs).Sublist cs := by
  induction cs with
  | nil => exact List.Sublist.refl _
  | cons c cs ih => exact (List.filter_sublist.trans ih).cons_cons c

theorem distinct_distinct (cs : List Column) : distinct (distinct cs) = distinct cs := by
  have hprefix := isPrefix_distinct (nodup_distinct cs) []
  rw [List.append_nil] at hprefix
  exact (distinct_sublist (distinct cs)).antisymm hprefix.sublist

/-- **Merging two lists adds to the first one what it has no name for.** -/
theorem distinct_append (as bs : List Column) :
    distinct (as ++ bs) = distinct as ++ (distinct bs).filter fun d => (find? as d.name).isNone := by
  induction as with
  | nil => exact (List.filter_eq_self.mpr fun _ _ => rfl).symm
  | cons c as ih =>
    have hkeep : ∀ d : Column, (!Text.sameName d.name c.name && (find? as d.name).isNone) =
        (find? (c :: as) d.name).isNone := by
      intro d
      have hcomm : Text.sameName d.name c.name = Text.sameName c.name d.name := Bool.beq_comm
      rw [hcomm, find?, find?, List.find?_cons]
      cases Text.sameName c.name d.name <;> rfl
    rw [List.cons_append, distinct, ih, List.filter_append, List.filter_filter, funext hkeep, distinct,
      List.cons_append]

/-- Merging a part of the columns beforehand changes nothing. -/
theorem distinct_append_distinct_append (as bs cs : List Column) :
    distinct (as ++ (distinct bs ++ cs)) = distinct (as ++ (bs ++ cs)) := by
  simp only [distinct_append, distinct_distinct, find?_distinct]

/-- **Merging some of the groups beforehand changes nothing.** -/
theorem merge_append_merge_cons (before groups after : List (List Column)) :
    merge (before ++ merge groups :: after) = merge (before ++ groups ++ after) := by
  simp only [merge, List.flatten_append, List.flatten_cons, List.append_assoc,
    distinct_append_distinct_append]

/-! ## The first column of each name -/

theorem mem_lowerNames_distinct {n : String} :
    n ∈ lowerNames (distinct cs) ↔ n ∈ lowerNames cs := by
  refine ⟨fun h => ((distinct_sublist cs).map _).subset h, fun h => ?_⟩
  obtain ⟨c, hc, rfl⟩ := List.mem_map.mp h
  obtain ⟨first, hfirst, hfind⟩ := exists_firstNamed hc
  exact List.mem_map.mpr ⟨first, List.mem_of_find?_eq_some hfind, hfirst.1⟩

/-- **Merged columns stand in the order in which their names appear first.** -/
theorem pairwise_idxOf_distinct (cs : List Column) : (lowerNames (distinct cs)).Pairwise
    fun m n => (lowerNames cs).idxOf m < (lowerNames cs).idxOf n := by
  induction cs with
  | nil => exact List.Pairwise.nil
  | cons c cs ih =>
    -- the names that are left of the rest are other ones than that of `c`
    have hnew : Text.lower c.name ∉
        lowerNames ((distinct cs).filter fun d => !Text.sameName d.name c.name) :=
      (List.nodup_cons.mp (nodup_distinct (c :: cs))).1
    have hshift : ∀ n ∈ lowerNames ((distinct cs).filter fun d => !Text.sameName d.name c.name),
        (lowerNames (c :: cs)).idxOf n = (lowerNames cs).idxOf n + 1 := by
      intro n hn
      refine List.idxOf_cons_ne _ ?_
      rintro rfl
      exact hnew hn
    have hfirst : (lowerNames (c :: cs)).idxOf (Text.lower c.name) = 0 := List.idxOf_cons_self
    refine List.pairwise_cons.mpr ⟨fun n hn => ?_, ?_⟩
    · rw [hfirst, hshift n hn]
      omega
    · refine (ih.sublist (List.filter_sublist.map _)).imp_of_mem fun hm hn hlt => ?_
      rw [hshift _ hm, hshift _ hn]
      omega

/-- The first-wins union of columns: each name is looked up with the same result, and the names are
those of the columns, each once and in the order in which they appear first. -/
structure FirstWins (cs merged : List Column) : Prop where
  found : ∀ name, find? merged name = find? cs name
  names : ∀ n, n ∈ lowerNames merged ↔ n ∈ lowerNames cs
  once : (lowerNames merged).Nodup
  ordered : (lowerNames merged).Pairwise fun m n => (lowerNames cs).idxOf m < (lowerNames cs).idxOf n

/-- **Merging is the first-wins union**, and it is associative and idempotent. -/
theorem firstWins_merge :
    (∀ groups, FirstWins groups.flatten (merge groups)) ∧
    (∀ a b c, merge [merge [a, b], c] = merge [a, b, c] ∧ merge [a, merge [b, c]] = merge [a, b, c]) ∧
    ∀ a, merge [merge [a]] = merge [a] := by
  refine ⟨fun groups => ⟨?_, ?_, ?_, ?_⟩, fun a b c => ⟨?_, ?_⟩, fun a => ?_⟩
  · exact find?_distinct groups.flatten
  · exact fun n => mem_lowerNames_distinct
  · exact nodup_distinct groups.flatten
  · exact pairwise_idxOf_distinct groups.flatten
  · exact merge_append_merge_cons [] [a, b] [c]
  · exact merge_append_merge_cons [a] [b, c] []
  · exact merge_append_merge_cons [] [a] []

/-! ## Definitions that are read back -/

/-- A name that is not empty and has no blanks, commas or parentheses. -/
def PlainName (name : String) : Prop :=
  name ≠ "" ∧ ∀ c ∈ name.toList, Text.isBlank c = false ∧ c ∉ [',', '(', ')']

instance (name : String) : Decidable (PlainName name) := inferInstanceAs (Decidable (_ ∧ _))

theorem toList_definition (c : Column) :
    c.definition.toList = c.name.toList ++ ' ' :: c.type.sql.toList := by
  rw [definition, String.toList_append, String.toList_append, List.append_assoc]
  rfl

/-- The spelling of a type is a single word without commas and parentheses. -/
theorem sql_facts (t : ColumnType) : ColumnType.ofText t.sql = .ok t ∧ t.sql.toList ≠ [] ∧
    ∀ c ∈ t.sql.toList, Text.isBlank c = false ∧ c ∉ [',', '(', ')'] := by
  cases t <;> decide +kernel

variable {c : Column}

theorem notMem_definition (h : PlainName c.name) : ∀ x ∈ [',', '(', ')'], x ∉ c.definition.toList := by
  intro x hx hmem
  rw [toList_definition, List.mem_append, List.mem_cons] at hmem
  rcases hmem with hmem | rfl | hmem
  · exact (h.2 x hmem).2 hx
  · exact absurd hx (by decide)
  · exact ((sql_facts c.type).2.2 x hmem).2 hx

theorem trimmed_definition (h : PlainName c.name) : Text.Trimmed c.definition.toList := by
  obtain ⟨-, hne, hsql⟩ := sql_facts c.type
  have hname : c.name.toList ≠ [] := fun he => h.1 (String.toList_eq_nil_iff.mp he)
  rw [toList_definition]
  constructor
  · intro d hd
    rw [List.head?_append_of_ne_nil _ hname] at hd
    exact (h.2 d (List.mem_of_mem_head? hd)).1
  · intro d hd
    rw [List.getLast?_append, List.getLast?_cons, Option.some_or, Option.mem_some] at hd
    have hlast := List.getLast?_eq_some_getLast hne
    rw [hlast, Option.getD_some] at hd
    exact (hsql d (hd ▸ List.getLast_mem hne)).1

/-- **A definition is read as the column that it defines.** -/
theorem ofDefinition_definition (h : PlainName c.name) : ofDefinition c.definition = .ok c := by
  obtain ⟨hread, hne, hsql⟩ := sql_facts c.type
  have hdark : ∀ d ∈ c.name.toList, (!Text.isBlank d) = true := fun d hd => by rw [(h.2 d hd).1]; rfl
  have hname : (c.definition.toList.takeWhile fun d => !Text.isBlank d) = c.name.toList := by
    rw [toList_definition, List.takeWhile_append_of_pos hdark, List.takeWhile_cons, if_neg (by decide),
      List.append_nil]
  have htype : (c.definition.toList.dropWhile fun d => !Text.isBlank d).dropWhile Text.isBlank =
      c.type.sql.toList := by
    rw [toList_definition, List.dropWhile_append_of_pos hdark, List.dropWhile_cons, if_neg (by decide),
      List.dropWhile_cons, if_pos (by decide)]
    exact Text.dropWhile_eq_self fun d hd => (hsql d (List.mem_of_mem_head? hd)).1
  have hcut : Text.splitFirstWord c.definition = some (c.name, c.type.sql) := by
    rw [Text.splitFirstWord, hname, htype, String.ofList_toList]
    split
    · rename_i hnil
      exact absurd hnil hne
    · rw [String.ofList_toList]
  rw [ofDefinition, hcut]
  exact Except.map_eq_ok.mpr ⟨c.type, hread, rfl⟩

/-- **Columns are read back from their definitions.** -/
theorem ofDefinitions_definitions (h : ∀ c ∈ cs, PlainName c.name) :
    ofDefinitions (Text.join ", " (cs.map definition)) = .ok cs := by
  by_cases hne : cs = []
  · subst hne
    rfl
  have hpieces : ∀ s ∈ cs.map definition, ',' ∉ s.toList ∧ Text.Trimmed s.toList := by
    intro s hs
    obtain ⟨c, hc, rfl⟩ := List.mem_map.mp hs
    exact ⟨notMem_definition (h c hc) ',' (by decide), trimmed_definition (h c hc)⟩
  have hlisted := Text.listed_join (by simpa using hne) hpieces
  have hparts : (Text.splitAt ',' (Text.join ", " (cs.map definition))).map Text.trim =
      cs.map definition := Text.map_trim_splitAt (by decide) hlisted
  have hfilter : (cs.map definition).filter (· ≠ "") = cs.map definition := by
    rw [List.filter_eq_self]
    intro s hs
    obtain ⟨c, hc, rfl⟩ := List.mem_map.mp hs
    refine decide_eq_true fun hnil => ?_
    have := toList_definition c
    rw [hnil] at this
    simp at this
  rw [ofDefinitions, hparts, hfilter, List.mapM_map]
  have := Except.mapM_eq_ok (f := fun c => ofDefinition (definition c)) (g := id)
    fun c hc => ofDefinition_definition (h c hc)
  rwa [List.map_id] at this

end GraphSql.Column
