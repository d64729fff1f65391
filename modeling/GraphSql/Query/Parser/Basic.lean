import GraphSql.Query.Token

/-!
# Reading a query token by token

A `Parser` takes characters from the front of the text.  It looks one token ahead and never goes
back, so a text is refused at the first token that no query could have there.  Repetition is bounded
by the length of the text, since every repeated step takes at least one character.
-/

namespace GraphSql.Query

/-- Why a text is not a query. -/
inductive SyntaxError where
  | malformed
  /-- An integer literal has too many digits to be read. -/
  | numeralTooLong (digits : Nat)
  deriving DecidableEq

abbrev Parser := StateT (List Char) (Except SyntaxError)

namespace Parser

def fail {α : Type} : Parser α := throw .malformed

/-- The next token, which stays in the text. -/
def peek (expecting : Expecting) : Parser Token := fun cs =>
  match Token.scan expecting cs with
  | some (t, _) => .ok (t, cs)
  | none => .error .malformed

/-- Takes the next token. -/
def next (expecting : Expecting) : Parser Token := fun cs =>
  match Token.scan expecting cs with
  | some r => .ok r
  | none => .error .malformed

/-- Takes the next token if it is `t`, and says whether it was. -/
def accept (expecting : Expecting) (t : Token) : Parser Bool := do
  if (← peek expecting) = t then
    let _ ← next expecting
    return true
  else
    return false

/-- Takes the next token, which must be `t`. -/
def expect (expecting : Expecting) (t : Token) : Parser Unit := do
  if (← next expecting) ≠ t then fail

/-- Takes a name. -/
def name : Parser String := do
  match ← next .name with
  | .name text => return text
  | _ => fail

/-- Repeats a step until it answers nothing, at most `fuel` times. -/
def repeatUpTo {α : Type} (step : Parser (Option α)) : Nat → Parser (List α)
  | 0 => fail
  | fuel + 1 => do
    match ← step with
    | none => return []
    | some a => return a :: (← repeatUpTo step fuel)

/-- Repeats a step until it answers nothing.  A step that answers something takes a character, so the
bound is never reached. -/
def many {α : Type} (step : Parser (Option α)) : Parser (List α) := fun cs =>
  repeatUpTo step (cs.length + 1) cs

/-- Runs `p` if the next token is `t`, which is taken before. -/
def after {α : Type} (expecting : Expecting) (t : Token) (p : Parser α) : Parser (Option α) := do
  if ← accept expecting t then
    return some (← p)
  else
    return none

/-- One or more things with commas between them. -/
def commaSeparated {α : Type} (p : Parser α) : Parser (List α) := do
  let first ← p
  let rest ← many (after .mark (.symbol .comma) p)
  return first :: rest

end Parser

end GraphSql.Query
