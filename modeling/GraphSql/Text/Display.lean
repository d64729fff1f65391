import GraphSql.Text.PrintTable
import GraphSql.Text.Search

/-!
# Texts as they are shown in messages

A text in a message stands between single quotes, or between double quotes when it holds a single
quote and no double quote.  The quote in use, the backslash, line ends and tabs are escaped, and
characters without a printed form are given by their code point.
-/

namespace GraphSql.Text

def isPrintable (c : Char) : Bool := !unprintables.covers c

/-- The code point of `c` with `width` hexadecimal digits. -/
def hexDigits (width : Nat) (c : Char) : List Char :=
  let ds := Nat.toDigits 16 c.toNat
  List.replicate (width - ds.length) '0' ++ ds

/-- One character inside a shown text whose quote is `quote`. -/
def showChar (quote c : Char) : List Char :=
  if c = quote || c = '\\' then ['\\', c]
  else if c = '\n' then ['\\', 'n']
  else if c = '\r' then ['\\', 'r']
  else if c = '\t' then ['\\', 't']
  else if isPrintable c then [c]
  else if c.toNat < 0x100 then '\\' :: 'x' :: hexDigits 2 c
  else if c.toNat < 0x10000 then '\\' :: 'u' :: hexDigits 4 c
  else '\\' :: 'U' :: hexDigits 8 c

/-- A text as it is shown in a message. -/
def display (s : String) : String :=
  let cs := s.toList
  let quote := if cs.contains '\'' && !cs.contains '"' then '"' else '\''
  String.ofList (quote :: cs.flatMap (showChar quote) ++ [quote])

/-- A list of texts as it is shown in a message. -/
def displayList (ss : List String) : String :=
  "[" ++ join ", " (ss.map display) ++ "]"

end GraphSql.Text
