import GraphSql.Query.Clause
import GraphSql.Query.Parser.Expr

/-!
# Reading patterns, clauses and whole queries

`Query.parse` reads a text as a query: one or more clauses and an optional semicolon.
-/

namespace GraphSql.Query.Parser

/-! ## Patterns -/

/-- A name, if one comes next. -/
def name? : Parser (Option String) := do
  match ← peek .name with
  | .name _ => return some (← name)
  | _ => return none

/-- The properties of a pattern, if a brace comes next. -/
def properties? : Parser (Option Properties) :=
  after .mark (.symbol .openBrace) (mapEntries expression)

/-- What stands between the parentheses of a node, and the closing one. -/
def nodePattern : Parser NodePattern := do
  expect .mark (.symbol .openParen)
  let variableName ← name?
  let labels ← many (after .mark (.symbol .colon) name)
  let properties ← properties?
  expect .mark (.symbol .closeParen)
  return { name := variableName, labels, properties }

/-- One more type of a relationship: a bar, an optional colon and a name. -/
def furtherType : Parser String := do
  let _ ← accept .name (.symbol .colon)
  name

/-- The types of a relationship. -/
def relationshipTypes : Parser (List String) := do
  match ← after .mark (.symbol .colon) name with
  | none => return []
  | some first =>
    let rest ← many (after .mark (.symbol .bar) furtherType)
    return first :: rest

/-- What stands between the brackets of a relationship, and the closing one. -/
def relationshipDetail : Parser RelationshipPattern := do
  let variableName ← name?
  let types ← relationshipTypes
  let properties ← properties?
  expect .mark (.symbol .closeBracket)
  return { name := variableName, types, properties, direction := .both }

/-- The direction that two arrow heads give: a single one decides it. -/
def directionOf (left right : Bool) : Direction :=
  match left, right with
  | true, false => .incoming
  | false, true => .outgoing
  | _, _ => .both

def relationshipPattern : Parser RelationshipPattern := do
  let left ← accept .mark (.symbol .less)
  expect .mark (.symbol .minus)
  let detail ← after .mark (.symbol .openBracket) relationshipDetail
  expect .mark (.symbol .minus)
  let right ← accept .mark (.symbol .greater)
  return { detail.getD { direction := .both } with direction := directionOf left right }

/-- A relationship and a node, if a relationship comes next. -/
def hop? : Parser (Option Hop) := do
  match ← peek .mark with
  | .symbol .less | .symbol .minus =>
    let relationship ← relationshipPattern
    let node ← nodePattern
    return some { relationship, node }
  | _ => return none

def pattern : Parser Pattern := do
  let first ← nodePattern
  let hops ← many hop?
  return { first, hops }

/-! ## Projections -/

def returnItem : Parser ReturnItem := do
  let expr ← expression
  let asName ← after .mark (.keyword .AS) name
  return { expr, asName }

def sortKey : Parser SortKey := do
  let expr ← expression
  match ← peek .mark with
  | .keyword .ASC | .keyword .ASCENDING =>
    let _ ← next .mark
    return { expr, order := .ascending }
  | .keyword .DESC | .keyword .DESCENDING =>
    let _ ← next .mark
    return { expr, order := .descending }
  | _ => return { expr, order := .ascending }

/-- The sort keys behind `ORDER`. -/
def sortKeys : Parser (List SortKey) := do
  expect .mark (.keyword .BY)
  commaSeparated sortKey

/-- A projection; `conditionAllowed` says whether a condition may follow its items. -/
def projection (conditionAllowed : Bool) : Parser WithProjection := do
  let distinct ← accept .operand (.keyword .DISTINCT)
  let items ← commaSeparated returnItem
  let condition ←
    if conditionAllowed then after .mark (.keyword .WHERE) expression else pure none
  let orderBy ← after .mark (.keyword .ORDER) sortKeys
  let skip ← after .mark (.keyword .SKIP) expression
  let limit ← after .mark (.keyword .LIMIT) expression
  return { items, distinct, orderBy := orderBy.getD [], skip, limit, condition }

/-! ## Clauses -/

def matching : Parser Matching := do
  let patterns ← commaSeparated pattern
  let condition ← after .mark (.keyword .WHERE) expression
  return { patterns, condition }

def assignment : Parser Assignment := do
  let target ← name
  expect .mark (.symbol .dot)
  let key ← name
  expect .mark (.symbol .equal)
  let value ← expression
  return { name := target, key, value }

/-- What is to be done for each element, if something more comes next. -/
def action? : Parser (Option Action) := do
  match ← peek .mark with
  | .keyword .SET =>
    let _ ← next .mark
    return some (.set (← commaSeparated assignment))
  | .keyword .CREATE =>
    let _ ← next .mark
    return some (.create (← pattern))
  | _ => return none

def loop : Parser Loop := do
  expect .mark (.symbol .openParen)
  let element ← name
  expect .mark (.keyword .IN)
  let source ← expression
  expect .mark (.symbol .bar)
  let actions ← many action?
  if actions.isEmpty then fail
  expect .mark (.symbol .closeParen)
  return { name := element, source, actions }

/-- The next clause, if one comes next. -/
def clause? : Parser (Option Clause) := do
  match ← peek .mark with
  | .keyword .MATCH =>
    let _ ← next .mark
    return some (.matching (← matching))
  | .keyword .WITH =>
    let _ ← next .mark
    return some (.passing (← projection true))
  | .keyword .RETURN =>
    let _ ← next .mark
    return some (.returning (← projection false).toProjection)
  | .keyword .FOREACH =>
    let _ ← next .mark
    return some (.looping (← loop))
  | _ => return none

def query : Parser Query := do
  let clauses ← many clause?
  if clauses.isEmpty then fail
  let _ ← accept .mark (.symbol .semicolon)
  expect .mark .stop
  return clauses

end GraphSql.Query.Parser

namespace GraphSql.Query

/-- The query that a text spells. -/
def parse (text : String) : Except SyntaxError Query := Parser.query.run' text.toList

end GraphSql.Query
