import Mathlib.Data.List.Forall2
import GraphSql.Proofs.Letters

/-!
# Labels as sets

A text or a list of labels is read as the set of its members.  Which sets are the same does not depend
on the order or the number of the members (`sameMembers_congr`), nor on the case of ASCII letters
(`mem_key`, `labelMember_of_folded`, `same_of_folded`).
-/

namespace GraphSql.Schema

theorem sameMembers_iff {xs ys : List String} :
    sameMembers xs ys = true ↔ ∀ x, x ∈ xs ↔ x ∈ ys := by
  simp only [sameMembers, Bool.and_eq_true, List.all_eq_true, List.contains_iff_mem]
  exact ⟨fun h x => ⟨h.1 x, h.2 x⟩, fun h => ⟨fun x => (h x).mp, fun x => (h x).mpr⟩⟩

theorem sameMembers_congr {xs xs' ys ys' : List String} (hx : ∀ x, x ∈ xs ↔ x ∈ xs')
    (hy : ∀ y, y ∈ ys ↔ y ∈ ys') : sameMembers xs ys = sameMembers xs' ys' := by
  rw [Bool.eq_iff_iff, sameMembers_iff, sameMembers_iff]
  simp only [hx, hy]

/-- The member of a set of labels that a label is, if it is not blank. -/
def labelMember (l : String) : Option String :=
  if Text.trim l = "" then none else some (Text.lower (Text.trim l))

theorem labelMember_of_folded {l m : String} (h : folded l = folded m) :
    labelMember l = labelMember m := by
  have htrim : folded (Text.trim l) = folded (Text.trim m) := by
    rw [Text.folded_trim, Text.folded_trim, h]
  have hblank : Text.trim l = "" ↔ Text.trim m = "" := by
    rw [← folded_eq_nil, htrim, folded_eq_nil]
  simp only [labelMember, hblank, Text.lower_of_folded htrim]

theorem mem_key {l : LabelRef} {x : String} : x ∈ l.key ↔ some x ∈ l.parts.map labelMember := by
  simp only [LabelRef.key, List.mem_map, List.mem_filter, labelMember]
  constructor
  · rintro ⟨_, ⟨⟨l, hl, rfl⟩, hne⟩, rfl⟩
    exact ⟨l, hl, if_neg (of_decide_eq_true hne)⟩
  · rintro ⟨l, hl, hx⟩
    split at hx
    · cases hx
    · rename_i hne
      exact ⟨_, ⟨⟨l, hl, rfl⟩, decide_eq_true hne⟩, Option.some.inj hx⟩

theorem splitChars_toLower (cs : List Char) :
    Text.splitChars ',' (cs.map Char.toLower) =
      (Text.splitChars ',' cs).map (List.map Char.toLower) := by
  induction cs with
  | nil => rfl
  | cons c cs ih =>
    have hcomma : decide (c.toLower = ',') = decide (c = ',') :=
      apply_toLower (f := fun c => decide (c = ',')) (by decide) c
    rw [List.map_cons, Text.splitChars, Text.splitChars, ih]
    simp only [decide_eq_decide.mp hcomma]
    split
    · rfl
    · cases Text.splitChars ',' cs <;> rfl

/-- Texts that differ only in the case of ASCII letters name the same set of labels. -/
theorem same_of_folded {x y : String} (h : folded x = folded y) :
    LabelRef.same (.text x) (.text y) = true := by
  have hparts : ∀ z, (LabelRef.text z).parts.map folded = Text.splitChars ',' (folded z) := by
    intro z
    rw [LabelRef.parts, Text.splitAt, List.map_map, folded, splitChars_toLower]
    exact List.map_congr_left fun cs _ => by rw [Function.comp_apply, folded, String.toList_ofList]
  have hall : List.Forall₂ (fun a b => folded a = folded b) (LabelRef.text x).parts
      (LabelRef.text y).parts := by
    have hmap := (hparts x).trans ((congrArg _ h).trans (hparts y).symm)
    rw [← List.forall₂_eq_eq_eq, List.forall₂_map_left_iff, List.forall₂_map_right_iff] at hmap
    exact hmap
  have hmembers : (LabelRef.text x).parts.map labelMember = (LabelRef.text y).parts.map labelMember := by
    rw [← List.forall₂_eq_eq_eq, List.forall₂_map_left_iff, List.forall₂_map_right_iff]
    exact hall.imp fun _ _ => labelMember_of_folded
  rw [LabelRef.same, sameMembers_iff]
  intro z
  rw [mem_key, mem_key, hmembers]

end GraphSql.Schema
