import GraphSql.Number.Numeral
import GraphSql.Text.Display

/-!
# Why a query has no relational form

Each cause is a constructor with the names it is about, and `Error.message` has the wording.  Some
errors never reach the caller: they are caught on the way and answered in another form.
-/

namespace GraphSql

/-- Why a loop is not supported. -/
inductive LoopFault where
  /-- A name is not returned by the query before the loop. -/
  | notReturned (name : String)
  /-- A variable is neither that of the element nor one of the query before the loop. -/
  | notBound (name : String)
  /-- The source is neither written out nor a name. -/
  | source
  /-- An element of a list that is written out is no literal. -/
  | element
  | overRelationships
  /-- A new edge is described by a pattern without exactly one relationship. -/
  | relationshipCount
  /-- A new edge has no type, several types or no direction. -/
  | typeOrDirection
  /-- A new edge leads to or from something other than a bare variable. -/
  | edgeEnds
  /-- A value is neither a literal nor the element. -/
  | value
  deriving DecidableEq

def LoopFault.message : LoopFault → String
  | notReturned name => name ++ " is not returned by the query before FOREACH"
  | notBound name => name ++ " is not bound by the query before FOREACH"
  | source => "FOREACH source must be a list literal or a returned name"
  | element => "FOREACH list elements must be literals"
  | overRelationships => "FOREACH over relationships is not supported"
  | relationshipCount => "CREATE must describe exactly one relationship"
  | typeOrDirection => "CREATE needs one relationship type and a direction"
  | edgeEnds => "CREATE endpoints must be bare variables"
  | value => "FOREACH values must be literals or the loop variable"

inductive Error where
  /-- The mapping has no table for a set of labels. -/
  | unmappedLabel (label : String)
  /-- The mapping does not know a relationship type. -/
  | unmappedType (type : String)
  /-- The mapping has no node or edge table of this name. -/
  | unmappedTable (table : String)
  /-- A property of a bound variable has no column in the table of the variable. -/
  | noColumnOf (key name table : String)
  /-- A property to be set has no column in its table. -/
  | noColumnIn (key table : String)
  /-- A property of a relationship to be created has no column for its type. -/
  | noColumnOfType (key type : String)
  | unknownProperty (name key : String)
  | unknownVariable (name : String)
  /-- A node variable stands in two patterns with different labels. -/
  | labelsDiffer (name : String) (before now : List String)
  /-- A node variable is the variable of an earlier relationship. -/
  | boundToRelationship (name : String)
  /-- A pattern puts labels on a variable that reads a derived table. -/
  | labelledDerived (name : String)
  /-- A relationship variable is already in use. -/
  | alreadyBound (name : String)
  /-- A property is read from something that is not a variable. -/
  | nestedProperty
  /-- A map stands outside of a pattern. -/
  | mapValue
  /-- An integer literal has too many digits to be read. -/
  | numeralTooLong (digits : Nat)
  | unsupported (fault : LoopFault)
  /-- A text spells no query.  What the reader expected instead is left out. -/
  | unreadable
  /-- An expression is nested deeper than the stack can hold. -/
  | tooDeep
  deriving DecidableEq

namespace Error

/-- What is at fault: the mapping has no entry, the query cannot be expressed, a numeral is beyond the
limit, a loop is not supported, the text is no query, or the stack is used up. -/
inductive Kind where
  | unmapped
  | inexpressible
  | numeral
  | unsupported
  | unreadable
  | stack
  deriving DecidableEq

def kind : Error → Kind
  | unmappedLabel _ | unmappedType _ | unmappedTable _ => .unmapped
  | noColumnOf _ _ _ | noColumnIn _ _ | noColumnOfType _ _ => .unmapped
  | unknownProperty _ _ | unknownVariable _ => .unmapped
  | labelsDiffer _ _ _ | boundToRelationship _ | labelledDerived _ | alreadyBound _ => .inexpressible
  | nestedProperty | mapValue => .inexpressible
  | numeralTooLong _ => .numeral
  | unsupported _ => .unsupported
  | unreadable => .unreadable
  | tooDeep => .stack

def message : Error → String
  | unmappedLabel label => "No table mapping for label: " ++ label
  | unmappedType type => "No table mapping for relationship type: " ++ type
  | unmappedTable table => "No table named " ++ table ++ " in the mapping"
  | noColumnOf key name table =>
    "No column " ++ key ++ " for " ++ name ++ " in table " ++ table
  | noColumnIn key table => "No column " ++ key ++ " in table " ++ table
  | noColumnOfType key type => "No column " ++ key ++ " for relationship type " ++ type
  | unknownProperty name key => "Unknown property " ++ name ++ "." ++ key
  | unknownVariable name => "Unknown variable " ++ name
  | labelsDiffer name before now =>
    "Node " ++ name ++ " is bound with labels " ++ Text.displayList before ++ " and " ++
      Text.displayList now
  | boundToRelationship name =>
    "Variable " ++ name ++ " is already bound to a relationship"
  | labelledDerived name =>
    "Variable " ++ name ++ " reads a derived table and cannot carry labels"
  | alreadyBound name => "Variable " ++ name ++ " is already bound"
  | nestedProperty => "Property access is only supported on variables"
  | mapValue => "Map values are only supported in patterns"
  | numeralTooLong digits =>
    "Exceeds the limit (4300 digits) for integer string conversion: value has " ++
      Numeral.natural digits ++
      " digits; use sys.set_int_max_str_digits() to increase the limit"
  | unsupported fault => fault.message
  | unreadable => "Failed to parse Cypher query"
  | tooDeep => "maximum recursion depth exceeded"

end Error

end GraphSql
