import RecordQuery.Text.Case

namespace RecordQuery

/-- The words with a meaning of their own in queries. -/
inductive Keyword where
  | select
  | distinct
  | asWord
  | fromWord
  | inner
  | left
  | right
  | full
  | outer
  | join
  | on
  | whereWord
  | having
  | group
  | order
  | byWord
  | asc
  | desc
  | natsort
  | shuffle
  | limit
  | offset
  | and
  | or
  | xor
  | not
  | inWord
  | like
  | is
  | contains
  | startsWith
  | endsWith
  deriving DecidableEq, Repr

namespace Keyword

/-- How a keyword is written, in upper case. -/
def spelling : Keyword → String
  | .select => "SELECT"
  | .distinct => "DISTINCT"
  | .asWord => "AS"
  | .fromWord => "FROM"
  | .inner => "INNER"
  | .left => "LEFT"
  | .right => "RIGHT"
  | .full => "FULL"
  | .outer => "OUTER"
  | .join => "JOIN"
  | .on => "ON"
  | .whereWord => "WHERE"
  | .having => "HAVING"
  | .group => "GROUP"
  | .order => "ORDER"
  | .byWord => "BY"
  | .asc => "ASC"
  | .desc => "DESC"
  | .natsort => "NATSORT"
  | .shuffle => "SHUFFLE"
  | .limit => "LIMIT"
  | .offset => "OFFSET"
  | .and => "AND"
  | .or => "OR"
  | .xor => "XOR"
  | .not => "NOT"
  | .inWord => "IN"
  | .like => "LIKE"
  | .is => "IS"
  | .contains => "CONTAINS"
  | .startsWith => "STARTS_WITH"
  | .endsWith => "ENDS_WITH"

/-- How a keyword is named in messages, which is without the line between its words. -/
def name (k : Keyword) : String :=
  String.ofList (k.spelling.toList.filter fun c => c != '_')

def all : List Keyword :=
  [.select, .distinct, .asWord, .fromWord, .inner, .left, .right, .full, .outer, .join, .on,
    .whereWord, .having, .group, .order, .byWord, .asc, .desc, .natsort, .shuffle, .limit, .offset,
    .and, .or, .xor, .not, .inWord, .like, .is, .contains, .startsWith, .endsWith]

/-- The keyword that a word is, in any case. -/
def ofText? (s : String) : Option Keyword :=
  all.find? fun k => k.spelling == Text.upperAscii s

end Keyword

/-- The signs of queries. -/
inductive Sign where
  | equal
  | strictEqual
  | notEqual
  | lessGreater
  | notStrictEqual
  | less
  | lessOrEqual
  | greater
  | greaterOrEqual
  | openParen
  | closeParen
  | comma
  | star
  deriving DecidableEq, Repr

def Sign.spelling : Sign → String
  | .equal => "="
  | .strictEqual => "=="
  | .notEqual => "!="
  | .lessGreater => "<>"
  | .notStrictEqual => "!=="
  | .less => "<"
  | .lessOrEqual => "<="
  | .greater => ">"
  | .greaterOrEqual => ">="
  | .openParen => "("
  | .closeParen => ")"
  | .comma => ","
  | .star => "*"

/-- The pieces that the text of a query is made of. Quoted texts keep their quotes, the arguments
of a call are kept as they are written, and what fits no other piece is unknown. -/
inductive Token where
  | keyword (k : Keyword)
  | sign (s : Sign)
  | quoted (text : String)
  | unterminated (text : String)
  | number (text : String)
  | path (text : String)
  | locator (text : String)
  | call (name : String) (arguments : List String)
  | unknown (text : String)
  deriving DecidableEq, Repr

/-- How a token is shown in messages. -/
def Token.display : Token → String
  | .keyword k => k.name
  | .sign s => s.spelling
  | .quoted text => text
  | .unterminated text => text
  | .number text => text
  | .path text => text
  | .locator text => text
  | .call name arguments => name ++ "(" ++ ", ".intercalate arguments ++ ")"
  | .unknown text => text

end RecordQuery
