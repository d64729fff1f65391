/-!
# Lists with one entry per key

Insertion order is part of every answer here, so finite maps are lists of entries.  Putting an entry
replaces the one with the same key where it stands, and appends when there is none.
-/

namespace GraphSql

/-- Puts `a` in the place of the first entry that satisfies `same`, or at the end. -/
def putBy {α : Type} (same : α → Bool) (a : α) : List α → List α
  | [] => [a]
  | b :: bs => if same b then a :: bs else b :: putBy same a bs

/-- Puts a key and value into a list of pairs. -/
def putPair {α : Type} (entries : List (String × α)) (entry : String × α) : List (String × α) :=
  putBy (fun e => e.1 == entry.1) entry entries

/-- The pairs of a list with each key once: at its first position, with its last value. -/
def lastValues {α : Type} (entries : List (String × α)) : List (String × α) :=
  entries.foldl putPair []

end GraphSql
