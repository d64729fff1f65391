import GraphSql.Column
import GraphSql.Number.Numeral

/-!
# Statements as texts

How statements are put next to each other and into each other.  A script has every statement ended by
a semicolon and one blank between them; a query inside another statement has lost its semicolon; a
block of statements stands between two copies of a dollar quote that does not occur in it.
-/

namespace GraphSql.Relational

/-- A statement with a semicolon at its end and without blanks around it. -/
def withSemicolon (sql : String) : String :=
  let s := Text.trim sql
  if s.toList.getLast? = some ';' then s else s ++ ";"

/-- A query without blanks around it and without semicolons at its end. -/
def withoutSemicolon (sql : String) : String :=
  String.ofList (Text.dropEndWhile Text.isBlank
    (Text.dropEndWhile (· == ';') (Text.trimChars sql.toList)))

/-- The statement for a script with nothing to do. -/
def emptyScript : String := "SELECT NULL WHERE FALSE;"

/-- The statements as one script. -/
def joinScript (statements : List String) : String :=
  match Text.join " " (statements.map withSemicolon) with
  | "" => emptyScript
  | s => s

def tempTableFrom (name select : String) : String :=
  "CREATE TEMP TABLE " ++ name ++ " AS " ++ withoutSemicolon select ++ ";"

/-! ## Blocks -/

/-- The dollar quotes with a tag, in the order in which they are tried. -/
def taggedQuote : Nat → String
  | 0 => "$cypher2sql$"
  | k + 1 => "$cypher2sql_" ++ Numeral.natural (k + 2) ++ "$"

/-- A dollar quote that does not occur in the text.  The tagged ones differ from each other and each
occurrence takes a place of its own, so one of the first `text.length + 1` does not occur. -/
def blockQuote (text : String) : String :=
  if Text.contains text "$$" then
    taggedQuote
      (((List.range (text.length + 1)).find? fun k => !Text.contains text (taggedQuote k)).getD 0)
  else "$$"

/-- A block that runs the statements of `body` once for each row of `source`, with the columns of the
row in the declared variables. -/
def loopBlock (declarations : List (String × ColumnType)) (source : String) (body : List String) :
    String :=
  let declared := Text.join " " (declarations.map fun (name, type) => name ++ " " ++ type.sql ++ ";")
  let targets := Text.join ", " (declarations.map Prod.fst)
  let statements := Text.join " " (body.map withSemicolon)
  let block := "DECLARE " ++ declared ++ " BEGIN FOR " ++ targets ++ " IN " ++ withoutSemicolon source ++
    " LOOP " ++ statements ++ " END LOOP; END"
  let q := blockQuote block
  "DO " ++ q ++ " " ++ block ++ " " ++ q ++ ";"

end GraphSql.Relational
