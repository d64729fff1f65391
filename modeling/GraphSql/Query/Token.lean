import GraphSql.Text.Digit

/-!
# Tokens of a graph query

Keywords need no blank behind them, so what a text starts with depends on what can stand there.
There are three cases, given by `Expecting`: an operand of an expression, a name of a pattern or
property, or a mark, which is a keyword or a symbol.  Where a name can stand it is tried first, and
of keywords and symbols the longest one wins.  `Token.scan` reads one token and the blanks before it.
-/

namespace GraphSql.Query

inductive Keyword where
  | DESCENDING
  | ASCENDING
  | CONTAINS
  | DISTINCT
  | FOREACH
  | CREATE
  | RETURN
  | STARTS
  | FALSE
  | LIMIT
  | MATCH
  | ORDER
  | WHERE
  | DESC
  | ENDS
  | NULL
  | SKIP
  | TRUE
  | WITH
  | AND
  | ASC
  | NOT
  | SET
  | AS
  | BY
  | IN
  | IS
  | OR
  deriving DecidableEq

namespace Keyword

/-- The spelling of a keyword in small letters. -/
def spelling : Keyword → String
  | DESCENDING => "descending"
  | ASCENDING => "ascending"
  | CONTAINS => "contains"
  | DISTINCT => "distinct"
  | FOREACH => "foreach"
  | CREATE => "create"
  | RETURN => "return"
  | STARTS => "starts"
  | FALSE => "false"
  | LIMIT => "limit"
  | MATCH => "match"
  | ORDER => "order"
  | WHERE => "where"
  | DESC => "desc"
  | ENDS => "ends"
  | NULL => "null"
  | SKIP => "skip"
  | TRUE => "true"
  | WITH => "with"
  | AND => "and"
  | ASC => "asc"
  | NOT => "not"
  | SET => "set"
  | AS => "as"
  | BY => "by"
  | IN => "in"
  | IS => "is"
  | OR => "or"

/-- All keywords, none after a shorter one. -/
def all : List Keyword :=
  [DESCENDING, ASCENDING, CONTAINS, DISTINCT, FOREACH, CREATE, RETURN, STARTS, FALSE, LIMIT, MATCH,
   ORDER, WHERE, DESC, ENDS, NULL, SKIP, TRUE, WITH, AND, ASC, NOT, SET, AS, BY, IN, IS, OR]

/-- The keywords that are never names. -/
def reserved : List Keyword :=
  [MATCH, WHERE, WITH, RETURN, ORDER, BY, FOREACH, SET, CREATE, AS, AND, OR, NOT, IN, IS, NULL,
   DISTINCT, SKIP, LIMIT]

end Keyword

inductive Symbol where
  | notEqual
  | bangEqual
  | lessEqual
  | greaterEqual
  | openParen
  | closeParen
  | openBracket
  | closeBracket
  | openBrace
  | closeBrace
  | comma
  | dot
  | colon
  | semicolon
  | bar
  | plus
  | minus
  | star
  | slash
  | percent
  | equal
  | less
  | greater
  deriving DecidableEq

namespace Symbol

def spelling : Symbol → List Char
  | notEqual => ['<', '>']
  | bangEqual => ['!', '=']
  | lessEqual => ['<', '=']
  | greaterEqual => ['>', '=']
  | openParen => ['(']
  | closeParen => [')']
  | openBracket => ['[']
  | closeBracket => [']']
  | openBrace => ['\x7b']
  | closeBrace => ['\x7d']
  | comma => [',']
  | dot => ['.']
  | colon => [':']
  | semicolon => [';']
  | bar => ['|']
  | plus => ['+']
  | minus => ['-']
  | star => ['*']
  | slash => ['/']
  | percent => ['%']
  | equal => ['=']
  | less => ['<']
  | greater => ['>']

/-- All symbols, none after a shorter one. -/
def all : List Symbol :=
  [notEqual, bangEqual, lessEqual, greaterEqual, openParen, closeParen, openBracket, closeBracket,
   openBrace, closeBrace, comma, dot, colon, semicolon, bar, plus, minus, star, slash, percent,
   equal, less, greater]

end Symbol

inductive Token where
  | keyword (k : Keyword)
  | symbol (s : Symbol)
  | name (text : String)
  | integer (digits : List Char)
  | decimal (whole fraction : List Char)
  /-- A quoted text as it is written between its quotes. -/
  | quoted (body : List Char)
  /-- The end of the query. -/
  | stop
  deriving DecidableEq

/-- What can stand at a place of the query. -/
inductive Expecting where
  | operand
  | name
  | mark
  deriving DecidableEq

/-! ## Characters -/

/-- The blanks between tokens. -/
def isSpace (c : Char) : Bool :=
  c = ' ' || c = '\t' || c = '\x0c' || c = '\r' || c = '\n'

/-- A letter without regard to case.  The long s, the Kelvin sign and the i with or without a dot are
read as the letters `s`, `k` and `i`. -/
def foldChar (c : Char) : Char :=
  if c = 'ſ' then 's'
  else if c = '\u212a' then 'k'
  else if c = 'İ' || c = 'ı' then 'i'
  else c.toLower

/-- The characters that a name starts with. -/
def isNameStart (c : Char) : Bool := (foldChar c).isLower || c = '_'

def isNameChar (c : Char) : Bool := isNameStart c || c.isDigit

/-! ## Parts of a token -/

/-- What follows a word at the start of the text, letter case apart. -/
def dropWord : List Char → List Char → Option (List Char)
  | [], cs => some cs
  | _ :: _, [] => none
  | w :: ws, c :: cs => if foldChar c = w then dropWord ws cs else none

def scanKeyword (cs : List Char) : Option (Keyword × List Char) :=
  Keyword.all.findSome? fun k => (dropWord k.spelling.toList cs).map fun rest => (k, rest)

def scanSymbol (cs : List Char) : Option (Symbol × List Char) :=
  Symbol.all.findSome? fun s =>
    if s.spelling.isPrefixOf cs then some (s, cs.drop s.spelling.length) else none

/-- The keyword that a whole word spells. -/
def keywordOf? (word : List Char) : Option Keyword :=
  Keyword.all.find? fun k => k.spelling.toList == word.map foldChar

def isReserved (word : List Char) : Bool :=
  Keyword.reserved.any fun k => k.spelling.toList == word.map foldChar

/-- A name at the start of the text: the longest run of name characters, unless it is a reserved
word.  A reserved word with a digit of another script right behind it does not end there, so it does
not count as reserved. -/
def scanName (cs : List Char) : Option (List Char × List Char) :=
  match cs with
  | [] => none
  | c :: _ =>
    let word := cs.takeWhile isNameChar
    let rest := cs.dropWhile isNameChar
    if !isNameStart c then none
    else if isReserved word && !(rest.head?.any Text.isDigit) then none
    else some (word, rest)

/-- The rest of a quoted text: what stands before the closing quote, and what follows it.  A
backslash takes the next character with it, which must not be a line end. -/
def scanQuoted (quote : Char) : List Char → Option (List Char × List Char)
  | [] => none
  | c :: cs =>
    if c = quote then some ([], cs)
    else if c = '\\' then
      match cs with
      | [] => none
      | d :: rest =>
        if d = '\n' then none
        else (scanQuoted quote rest).map fun (body, after) => (c :: d :: body, after)
    else (scanQuoted quote cs).map fun (body, after) => (c :: body, after)

/-- The text that is meant by what stands between two quotes: line end, tab and the two quotes can
be written with a backslash, and a backslash before anything else stands for itself. -/
def unescape : List Char → List Char
  | [] => []
  | '\\' :: 'n' :: cs => '\n' :: unescape cs
  | '\\' :: 't' :: cs => '\t' :: unescape cs
  | '\\' :: '"' :: cs => '"' :: unescape cs
  | '\\' :: '\'' :: cs => '\'' :: unescape cs
  | c :: cs => c :: unescape cs

/-- A number at the start of the text: digits, with a fraction when a point and more digits
follow. -/
def scanNumber (cs : List Char) : Option (Token × List Char) :=
  let whole := cs.takeWhile Text.isDigit
  if whole.isEmpty then none
  else
    match cs.dropWhile Text.isDigit with
    | '.' :: after =>
      let fraction := after.takeWhile Text.isDigit
      if fraction.isEmpty then some (.integer whole, '.' :: after)
      else some (.decimal whole fraction, after.dropWhile Text.isDigit)
    | rest => some (.integer whole, rest)

/-! ## Tokens -/

/-- A keyword or symbol. -/
def scanMark (cs : List Char) : Option (Token × List Char) :=
  match scanKeyword cs with
  | some (k, rest) => some (.keyword k, rest)
  | none => (scanSymbol cs).map fun (s, rest) => (.symbol s, rest)

/-- A name as an operand: the two truth values are keywords there. -/
def operandName (word : List Char) : Token :=
  match keywordOf? word with
  | some .TRUE => .keyword .TRUE
  | some .FALSE => .keyword .FALSE
  | _ => .name (String.ofList word)

/-- The first token of an operand. -/
def scanOperand (cs : List Char) : Option (Token × List Char) :=
  match scanNumber cs with
  | some r => some r
  | none =>
    match scanName cs with
    | some (word, rest) => some (operandName word, rest)
    | none =>
      match cs with
      | '\'' :: rest => (scanQuoted '\'' rest).map fun (body, after) => (.quoted body, after)
      | '"' :: rest => (scanQuoted '"' rest).map fun (body, after) => (.quoted body, after)
      | _ => scanMark cs

/-- The first token of the text and what follows it, where the text is expected to go on as given.
There is none when the text starts with nothing that can stand there. -/
def Token.scan (expecting : Expecting) (text : List Char) : Option (Token × List Char) :=
  match text.dropWhile isSpace with
  | [] => some (.stop, [])
  | cs =>
    match expecting with
    | .operand => scanOperand cs
    | .name =>
      match scanName cs with
      | some (word, rest) => some (.name (String.ofList word), rest)
      | none => scanMark cs
    | .mark => scanMark cs

end GraphSql.Query
