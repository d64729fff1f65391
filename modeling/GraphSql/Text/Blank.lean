import GraphSql.Text.Range

/-!
# Blanks and words

Blank characters are the white space of the Unicode standard together with the four information
separators U+001C to U+001F.  Trimming removes them at both ends, and `words` cuts a text at every
run of them.
-/

namespace GraphSql.Text

/-- The code points of the blank characters. -/
def blanks : Ranges :=
  [(9, 13), (28, 32), (133, 133), (160, 160), (5760, 5760), (8192, 8202), (8232, 8233),
   (8239, 8239), (8287, 8287), (12288, 12288)]

def isBlank (c : Char) : Bool := blanks.covers c

/-- Drops the longest end of a list whose members all satisfy `p`. -/
def dropEndWhile {α : Type} (p : α → Bool) (xs : List α) : List α :=
  (xs.reverse.dropWhile p).reverse

/-- A text without the blanks at its two ends. -/
def trimChars (cs : List Char) : List Char :=
  dropEndWhile isBlank (cs.dropWhile isBlank)

def trim (s : String) : String := String.ofList (trimChars s.toList)

/-- The maximal runs of characters that satisfy `p`, in order: `run` holds, last first, the part of
the current run that has been read. -/
def runsOf (p : Char → Bool) : List Char → List Char → List (List Char)
  | [], [] => []
  | run, [] => [run.reverse]
  | run, c :: cs =>
    if p c then runsOf p (c :: run) cs
    else match run with
      | [] => runsOf p [] cs
      | _ => run.reverse :: runsOf p [] cs

/-- The maximal runs of characters that are not blank. -/
def words (s : String) : List String :=
  (runsOf (fun c => !isBlank c) [] s.toList).map String.ofList

/-- Cuts a trimmed text after its first word: the word, and what follows the blanks behind it.
There is no second part when the text is a single word. -/
def splitFirstWord (s : String) : Option (String × String) :=
  match (s.toList.dropWhile fun c => !isBlank c).dropWhile isBlank with
  | [] => none
  | rest => some (String.ofList (s.toList.takeWhile fun c => !isBlank c), String.ofList rest)

end GraphSql.Text
