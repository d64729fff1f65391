import GraphSql.Keyed
import GraphSql.Query.Expr
import GraphSql.Query.Parser.Basic

/-!
# Reading expressions

From the loosest to the tightest the levels are disjunction, conjunction, negation, comparison, sum,
product, sign, property access and atom.  Each level is written over a parser `nested` for the
expressions inside brackets; `expressionAt` ties the knot, with the depth of brackets as its bound.
-/

namespace GraphSql.Query.Parser

/-- Whether a token can follow a complete operand. -/
def endsOperand : Token → Bool
  | .stop => true
  | .symbol s =>
    match s with
    | .openParen | .openBracket | .openBrace | .colon => false
    | _ => true
  | .keyword k =>
    match k with
    | .NOT | .NULL | .TRUE | .FALSE | .DISTINCT | .BY => false
    | _ => true
  | _ => false

/-- The literal with the given digits.  A numeral that is too long is refused as such when the text
goes on as it can behind an operand. -/
def integerLiteral (digits : List Char) : Parser Expr := do
  if digits.length ≤ Numeral.digitLimit then
    return .integer (Text.digitsValue digits)
  else if endsOperand (← peek .mark) then
    throw (.numeralTooLong digits.length)
  else
    fail

section Levels

variable (nested : Parser Expr)

/-- Expressions up to a closing mark, which is taken; there may be none. -/
def arguments (close : Symbol) : Parser (List Expr) := do
  if ← accept .operand (.symbol close) then
    return []
  else
    let es ← commaSeparated nested
    expect .mark (.symbol close)
    return es

/-- The arguments of a call and the closing parenthesis. -/
def callArguments (function : String) : Parser Expr := do
  match ← peek .operand with
  | .symbol .star =>
    let _ ← next .operand
    expect .mark (.symbol .closeParen)
    return .callStar function
  | .keyword .DISTINCT =>
    let _ ← next .operand
    return .call function true (← arguments nested .closeParen)
  | _ => return .call function false (← arguments nested .closeParen)

/-- A key and its value. -/
def mapEntry : Parser (String × Expr) := do
  let key ← name
  expect .mark (.symbol .colon)
  let value ← nested
  return (key, value)

/-- The entries of a map and the closing brace. -/
def mapEntries : Parser (List (String × Expr)) := do
  if ← accept .name (.symbol .closeBrace) then
    return []
  else
    let entries ← commaSeparated (mapEntry nested)
    expect .mark (.symbol .closeBrace)
    return lastValues entries

def atom : Parser Expr := do
  match ← next .operand with
  | .integer digits => integerLiteral digits
  | .decimal whole fraction => return .number (Binary64.ofDigits whole fraction)
  | .quoted body => return .text (String.ofList (unescape body))
  | .keyword .TRUE => return .boolean true
  | .keyword .FALSE => return .boolean false
  | .keyword .NULL => return .null
  | .name text =>
    if ← accept .mark (.symbol .openParen) then callArguments nested text
    else return .var text
  | .symbol .openBracket => return .list (← arguments nested .closeBracket)
  | .symbol .openBrace => return .map (← mapEntries nested)
  | .symbol .openParen =>
    let e ← nested
    expect .mark (.symbol .closeParen)
    return e
  | _ => fail

/-- An atom and the keys read from it. -/
def propertyAccess : Parser Expr := do
  let e ← atom nested
  let keys ← many (after .mark (.symbol .dot) name)
  return keys.foldl .property e

/-- Takes the next token if it is `t`; a step for counting how often it stands there. -/
def mark (t : Token) : Parser (Option Unit) := after .operand t (pure ())

/-- An operand with any number of minus signs before it. -/
def signed : Parser Expr := do
  let signs ← many (mark (.symbol .minus))
  let e ← propertyAccess nested
  return signs.foldr (fun _ e => .negate e) e

/-- Operands joined by operators that group to the left. -/
def leftChain (operator : Token → Option BinaryOp) (operand : Parser Expr) : Parser Expr := do
  let first ← operand
  let rest ← many do
    match operator (← peek .mark) with
    | none => return none
    | some op =>
      let _ ← next .mark
      return some (op, ← operand)
  return rest.foldl (fun e (op, f) => .binary op e f) first

def productOp? : Token → Option BinaryOp
  | .symbol .star => some .mul
  | .symbol .slash => some .div
  | .symbol .percent => some .mod
  | _ => none

def sumOp? : Token → Option BinaryOp
  | .symbol .plus => some .add
  | .symbol .minus => some .sub
  | _ => none

def conjunctionOp? : Token → Option BinaryOp
  | .keyword .AND => some .and
  | _ => none

def disjunctionOp? : Token → Option BinaryOp
  | .keyword .OR => some .or
  | _ => none

def product : Parser Expr := leftChain productOp? (signed nested)

def sum : Parser Expr := leftChain sumOp? (product nested)

/-- The comparisons that are written with one token. -/
def comparisonOp? : Token → Option Comparison
  | .symbol .equal => some .eq
  | .symbol .notEqual => some .ne
  | .symbol .bangEqual => some .ne
  | .symbol .less => some .lt
  | .symbol .greater => some .gt
  | .symbol .lessEqual => some .le
  | .symbol .greaterEqual => some .ge
  | .keyword .IN => some .isIn
  | .keyword .CONTAINS => some .contains
  | _ => none

/-- The comparisons that are written with one more `WITH`. -/
def affixOp? : Token → Option Comparison
  | .keyword .STARTS => some .startsWith
  | .keyword .ENDS => some .endsWith
  | _ => none

/-- A sum, or a comparison of two of them, or a test of one for null. -/
def comparison : Parser Expr := do
  let left ← sum nested
  let t ← peek .mark
  match comparisonOp? t, affixOp? t with
  | some op, _ =>
    let _ ← next .mark
    return .compare op left (← sum nested)
  | none, some op =>
    let _ ← next .mark
    expect .mark (.keyword .WITH)
    return .compare op left (← sum nested)
  | none, none =>
    if ← accept .mark (.keyword .IS) then
      let negated ← accept .mark (.keyword .NOT)
      expect .mark (.keyword .NULL)
      return .nullTest negated left
    else
      return left

/-- A comparison with any number of negations before it. -/
def negation : Parser Expr := do
  let nots ← many (mark (.keyword .NOT))
  let e ← comparison nested
  return nots.foldr (fun _ e => .not e) e

def conjunction : Parser Expr := leftChain conjunctionOp? (negation nested)

def disjunction : Parser Expr := leftChain disjunctionOp? (conjunction nested)

end Levels

/-- An expression whose brackets are nested less than `depth` times. -/
def expressionAt : Nat → Parser Expr
  | 0 => fail
  | depth + 1 => disjunction (expressionAt depth)

/-- An expression.  A text has no more nested brackets than characters. -/
def expression : Parser Expr := fun cs => expressionAt (cs.length + 1) cs

end GraphSql.Query.Parser
