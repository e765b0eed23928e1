import RecordQuery.Token

namespace RecordQuery

/-- The clauses of a statement. -/
inductive Clause where
  | selectFields
  | source
  | join
  | filter
  | groupBy
  | having
  | orderBy
  | limit
  | offset
  deriving DecidableEq, Repr

namespace Clause

/-- The place of a clause in a statement. Clauses of the same rank may be exchanged. -/
def rank : Clause → Nat
  | .selectFields => 0
  | .source => 1
  | .join => 2
  | .filter => 3
  | .groupBy => 4
  | .having => 4
  | .orderBy => 5
  | .limit => 6
  | .offset => 6

def name : Clause → String
  | .selectFields => "SELECT"
  | .source => "FROM"
  | .join => "JOIN"
  | .filter => "WHERE"
  | .groupBy => "GROUP BY"
  | .having => "HAVING"
  | .orderBy => "ORDER BY"
  | .limit => "LIMIT"
  | .offset => "OFFSET"

/-- The clause that a keyword is the beginning of. -/
def ofKeyword? : Keyword → Option Clause
  | .select => some .selectFields
  | .fromWord => some .source
  | .inner => some .join
  | .left => some .join
  | .right => some .join
  | .full => some .join
  | .join => some .join
  | .whereWord => some .filter
  | .group => some .groupBy
  | .having => some .having
  | .order => some .orderBy
  | .limit => some .limit
  | .offset => some .offset
  | _ => none

end Clause

end RecordQuery
