/-!
# Searching and cutting texts

Occurrence of one text in another, cutting at a separator, and joining with one.
-/

namespace GraphSql.Text

/-- Whether `needle` stands somewhere in the list. -/
def occursIn (needle : List Char) : List Char → Bool
  | [] => needle.isEmpty
  | c :: cs => needle.isPrefixOf (c :: cs) || occursIn needle cs

/-- Whether the text `needle` stands somewhere in `s`. -/
def contains (s needle : String) : Bool := occursIn needle.toList s.toList

/-- The pieces between the occurrences of a separating character; there is always one piece more
than there are separators. -/
def splitChars (sep : Char) : List Char → List (List Char)
  | [] => [[]]
  | c :: cs =>
    if c = sep then [] :: splitChars sep cs
    else match splitChars sep cs with
      | [] => [[c]]
      | piece :: pieces => (c :: piece) :: pieces

def splitAt (sep : Char) (s : String) : List String :=
  (splitChars sep s.toList).map String.ofList

/-- The texts in order with `sep` between each two of them. -/
def join (sep : String) : List String → String
  | [] => ""
  | [s] => s
  | s :: t :: rest => s ++ sep ++ join sep (t :: rest)

end GraphSql.Text
