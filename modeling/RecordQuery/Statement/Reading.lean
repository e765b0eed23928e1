import RecordQuery.Statement.Call
import RecordQuery.Statement.Clause
import RecordQuery.Statement.Step

namespace RecordQuery.Statement

/-- A condition that is being read: its connective, where it begins, and where the parentheses
around it that are still open begin, the innermost first. -/
structure TestHead where
  connective : Connective
  start : Nat
  parens : List Nat

/-- A join that is being read: its kind and where it begins. -/
structure JoinHead where
  kind : JoinKind
  start : Nat

/-- What an operator is read for, with the field before it. -/
inductive Comparison where
  | keys (head : JoinHead) (aliasName : Option String) (left : String)
  | test (head : TestHead) (field : String)

/-- What a reader of a statement is about to meet. -/
inductive Awaiting where
  | clause
  | item
  | itemAfterSelect
  | afterItem
  | itemAlias
  | afterItemAlias
  | source
  | pastSource (stop : Nat)
  | joinWord (head : JoinHead) (outer : Bool)
  | right (head : JoinHead)
  | afterRight (head : JoinHead)
  | joinAlias (head : JoinHead)
  | on (head : JoinHead) (aliasName : String)
  | leftKey (head : JoinHead) (aliasName : Option String)
  | rightKey (head : JoinHead) (aliasName : Option String) (left : String) (operator : Operator)
  | groupBy
  | groupKey
  | afterGroupKey
  | orderBy
  | orderKey
  | afterOrderKey (start : Nat) (field : String)
  | afterDirection
  | count (c : Clause)
  | condition (connective : Connective) (parens : List Nat)
  | operator (c : Comparison)
  | afterIs (c : Comparison)
  | afterNot (c : Comparison) (start : Nat)
  | operand (head : TestHead) (field : String) (operator : Operator)
  | list (head : TestHead) (field : String) (operator : Operator)
  | listStart (head : TestHead) (field : String) (operator : Operator)
  | listItem (head : TestHead) (field : String) (operator : Operator) (items : List Value)
  | afterListItem (head : TestHead) (field : String) (operator : Operator) (items : List Value)
  | afterCondition (parens : List Nat)

/-- A query around the one that is being read, and the join that this one belongs to. -/
structure AroundQuery where
  clauses : List Clause
  head : JoinHead

/-- Where a reader stands: the clauses of the query met so far, the last one first, the queries
around it from the inside to the outside, and what comes next. -/
structure Place where
  clauses : List Clause
  around : List AroundQuery
  awaiting : Awaiting

/-- What a lexeme leads to: steps, and the next place unless it does not belong where it stands. -/
structure Move where
  steps : List PlacedStep
  next : Except QueryError Place

namespace Place

def start : Place :=
  ⟨[], [], .clause⟩

def await (p : Place) (awaiting : Awaiting) : Place :=
  { p with awaiting }

/-- Goes on without a step. -/
def goOn (p : Place) (awaiting : Awaiting) : Move :=
  ⟨[], .ok (p.await awaiting)⟩

/-- Takes a step and goes on. -/
def step (p : Place) (position : Nat) (s : Step) (awaiting : Awaiting) : Move :=
  ⟨[⟨position, s⟩], .ok (p.await awaiting)⟩

end Place

def fail (e : QueryError) : Move :=
  ⟨[], .error e⟩

/-- A lexeme that stands where something else was expected. -/
def unexpected (l : Lexeme) (expected : String) : QueryError :=
  match l.token with
  | .unterminated text => .parse l.start (.unterminated text)
  | token => .parse l.start (.unexpected token.display expected)

def refuse (l : Lexeme) (expected : String) : Move :=
  fail (unexpected l expected)

/-- What is expected, as messages say it. -/
def expected : Awaiting → String
  | .clause => "a clause keyword"
  | .item => "a field or function"
  | .itemAfterSelect => "a field or function"
  | .afterItem => "a clause keyword"
  | .itemAlias => "an alias"
  | .afterItemAlias => "a clause keyword"
  | .source => "a source locator"
  | .pastSource _ => "a clause keyword"
  | .joinWord .. => "'JOIN'"
  | .right _ => "'('"
  | .afterRight _ => "'ON'"
  | .joinAlias _ => "a join alias"
  | .on .. => "'ON'"
  | .leftKey .. => "a join key"
  | .rightKey .. => "a join key"
  | .groupBy => "'BY'"
  | .groupKey => "a field"
  | .afterGroupKey => "a clause keyword"
  | .orderBy => "'BY'"
  | .orderKey => "a field"
  | .afterOrderKey .. => "a clause keyword"
  | .afterDirection => "a clause keyword"
  | .count c => "a number after " ++ c.name
  | .condition .. => "a field"
  | .operator _ => "a comparison operator"
  | .afterIs (.keys ..) => "a join key"
  | .afterIs (.test ..) => "a value"
  | .afterNot .. => "a comparison operator"
  | .operand .. => "a value"
  | .list .. => "a value"
  | .listStart .. => "a value"
  | .listItem .. => "a value"
  | .afterListItem .. => "')'"
  | .afterCondition [] => "a clause keyword"
  | .afterCondition (_ :: _) => "')'"

/-- A name is a bare word or stands between quotes. -/
def name? : Token → Option String
  | .path text => some text
  | .quoted text => some (Literal.unquote text)
  | _ => none

def literal? : Token → Option Value
  | .quoted text => some (.text (Literal.unquote text))
  | .number text => some (Literal.ofUnquoted text)
  | .path text => some (Literal.ofUnquoted text)
  | _ => none

def connective? : Token → Option Connective
  | .keyword .and => some .and
  | .keyword .or => some .or
  | .keyword .xor => some .xor
  | _ => none

def direction? : Token → Option Direction
  | .keyword .asc => some .asc
  | .keyword .desc => some .desc
  | .keyword .natsort => some .natural
  | .keyword .shuffle => some .shuffle
  | _ => none

/-- The operators that are written as a single token. -/
def operator? : Token → Option Operator
  | .sign .equal => some .equal
  | .sign .strictEqual => some .strictEqual
  | .sign .notEqual => some .notEqual
  | .sign .lessGreater => some .notEqual
  | .sign .notStrictEqual => some .notStrictEqual
  | .sign .less => some .less
  | .sign .lessOrEqual => some .lessOrEqual
  | .sign .greater => some .greater
  | .sign .greaterOrEqual => some .greaterOrEqual
  | .keyword .inWord => some .inList
  | .keyword .like => some .like
  | .keyword .contains => some .contains
  | .keyword .startsWith => some .startsWith
  | .keyword .endsWith => some .endsWith
  | _ => none

/-- The number of rows that a number stands for, if it is a natural one that can be counted to. -/
def count? (text : String) : Option Nat :=
  let digits := text.toList
  if Decimal.isNatural digits && Decimal.valueOf digits ≤ Draft.countLimit then
    some (Decimal.valueOf digits)
  else none

/-- The end of the steps behind a path in parentheses, in characters. A backtick that is never
closed ends them. -/
def stepsAhead (cs : List Char) : Nat :=
  match cs with
  | '.' :: c :: rest =>
    if FieldPath.isBacktick c then
      match Token.backtickLength? rest with
      | some name => 2 + name + stepsAhead (rest.drop name)
      | none => 0
    else if Token.inName c then
      let name := Token.runLength Token.inName rest
      2 + name + stepsAhead (rest.drop name)
    else 0
  | _ => 0
termination_by cs.length
decreasing_by
  all_goals
    simp only [List.length_drop, List.length_cons]
    omega

/-- The text of a locator that begins with a path in parentheses, from what stands behind the first
one of them. -/
def pathLocator? (behind : List Char) : Option (List Char) :=
  let path := Token.runLength (fun c => c != ')') behind
  if path < behind.length then
    some ('(' :: behind.take (path + 1 + stepsAhead (behind.drop (path + 1))))
  else none

namespace Place

/-- Begins a clause. -/
def begin (p : Place) (l : Lexeme) (keyword : Keyword) : Clause → Move
  | .selectFields => p.goOn .itemAfterSelect
  | .source => p.goOn .source
  | .join =>
    match keyword with
    | .inner => p.goOn (.joinWord ⟨.inner, l.start⟩ false)
    | .left => p.goOn (.joinWord ⟨.left, l.start⟩ true)
    | .right => p.goOn (.joinWord ⟨.right, l.start⟩ true)
    | .full => p.goOn (.joinWord ⟨.full, l.start⟩ true)
    | _ => p.goOn (.right ⟨.inner, l.start⟩)
  | .filter => p.step l.start (.clause .filter) (.condition .and [])
  | .groupBy => p.goOn .groupBy
  | .having => p.step l.start (.clause .having) (.condition .and [])
  | .orderBy => p.goOn .orderBy
  | .limit => p.goOn (.count .limit)
  | .offset => p.goOn (.count .offset)

/-- Meets a clause, which may not stand twice unless it is a join, and not behind a later one. -/
def meetClause (p : Place) (l : Lexeme) (keyword : Keyword) (c : Clause) : Move :=
  if c ≠ .join ∧ p.clauses.contains c then fail (.parse l.start (.duplicateClause c.name))
  else
    let begun := begin { p with clauses := c :: p.clauses } l keyword c
    match p.clauses with
    | [] => begun
    | last :: _ =>
      if c.rank < last.rank then fail (.parse l.start (.clauseOrder c.name last.name)) else begun

/-- Meets the next clause, or the end of a query in parentheses. -/
def atClause (p : Place) (l : Lexeme) : Move :=
  match l.token, p.around with
  | .keyword k, _ =>
    match Clause.ofKeyword? k with
    | some c => p.meetClause l k c
    | none => refuse l (expected .clause)
  | .sign .closeParen, outer :: around =>
    ⟨[], .ok ⟨outer.clauses, around, .afterRight outer.head⟩⟩
  | _, _ => refuse l (expected .clause)

/-- Goes on behind a comma, or meets the next clause. -/
def atComma (p : Place) (l : Lexeme) (next : Awaiting) : Move :=
  if l.token = .sign .comma then p.goOn next else p.atClause l

def atItem (p : Place) (l : Lexeme) : Move :=
  match l.token with
  | .sign .star => p.step l.start .selectAll .afterItem
  | .path text => p.step l.start (.select text) .afterItem
  | .call name texts =>
    match Call.ofTexts l.start name texts with
    | .ok call => p.step l.start (.selectCall call) .afterItem
    | .error e => fail e
  | _ => refuse l (expected .item)

def atSource (p : Place) (l : Lexeme) : Move :=
  match l.token with
  | .locator text => p.step l.start (.source text) .clause
  | .path text => p.step l.start (.source text) .clause
  | .quoted text => p.step l.start (.source (Literal.unquote text)) .clause
  | .sign .star => p.step l.start (.source "*") .clause
  | .sign .openParen =>
    match pathLocator? l.behind with
    | some cs =>
      p.step l.start (.source (String.ofList cs)) (.pastSource (l.start + Lexeme.byteLength cs))
    | none => refuse l "a closing ')' in the source locator"
  | _ => refuse l (expected .source)

/-- Goes on behind an operator. -/
def behindOperator (c : Comparison) (operator : Operator) : Awaiting :=
  match c, operator with
  | .keys head aliasName left, _ => .rightKey head aliasName left operator
  | .test head field, .inList => .list head field .inList
  | .test head field, .notInList => .list head field .notInList
  | .test head field, _ => .operand head field operator

def atOperator (p : Place) (l : Lexeme) (c : Comparison) : Move :=
  match l.token with
  | .keyword .is => p.goOn (.afterIs c)
  | .keyword .not => p.goOn (.afterNot c l.start)
  | token =>
    match operator? token with
    | some operator => p.goOn (behindOperator c operator)
    | none => refuse l (expected (.operator c))

def atRightKey (p : Place) (l : Lexeme) (head : JoinHead) (aliasName : Option String)
    (left : String) (operator : Operator) : Move :=
  match l.token with
  | .path text => p.step head.start (.join head.kind aliasName left operator text) .clause
  | _ => refuse l (expected (.rightKey head aliasName left operator))

/-- Finishes a test. -/
def test (p : Place) (head : TestHead) (field : String) (operator : Operator) (operand : Value) :
    Move :=
  match FieldPath.forQuery field with
  | .ok path =>
    p.step head.start (.test head.connective ⟨path, operator, operand⟩)
      (.afterCondition head.parens)
  | .error fault => fail (.parse head.start (.build fault))

def atOperand (p : Place) (l : Lexeme) (head : TestHead) (field : String) (operator : Operator) :
    Move :=
  match literal? l.token with
  | some v => p.test head field operator v
  | none => refuse l (expected (.operand head field operator))

def atListItem (p : Place) (l : Lexeme) (head : TestHead) (field : String) (operator : Operator)
    (items : List Value) : Move :=
  match literal? l.token with
  | some v => p.goOn (.afterListItem head field operator (items ++ [v]))
  | none => refuse l (expected (.listItem head field operator items))

def atCondition (p : Place) (l : Lexeme) (connective : Connective) (parens : List Nat) : Move :=
  match l.token with
  | .sign .openParen =>
    p.step l.start (.openGroup connective) (.condition .and (l.start :: parens))
  | .path text => p.goOn (.operator (.test ⟨connective, l.start, parens⟩ text))
  | _ => refuse l (expected (.condition connective parens))

def afterCondition (p : Place) (l : Lexeme) (parens : List Nat) : Move :=
  match connective? l.token, parens with
  | some connective, _ => p.goOn (.condition connective parens)
  | none, [] => p.atClause l
  | none, start :: rest =>
    if l.token = .sign .closeParen then p.step start .closeGroup (.afterCondition rest)
    else refuse l (expected (.afterCondition parens))

/-- Orders by a field with the direction behind it. Rows ascend unless a direction is given. -/
def afterOrderKey (p : Place) (l : Lexeme) (start : Nat) (field : String) : Move :=
  match direction? l.token with
  | some direction => p.step start (.orderBy field direction) .afterDirection
  | none =>
    let m := p.atComma l .orderKey
    { m with steps := ⟨start, .orderBy field .asc⟩ :: m.steps }

/-- Meets a lexeme. -/
def meet (p : Place) (l : Lexeme) : Move :=
  match p.awaiting, l.token with
  | .clause, _ => p.atClause l
  | .itemAfterSelect, .keyword .distinct => p.step l.start .distinct .item
  | .itemAfterSelect, _ => p.atItem l
  | .item, _ => p.atItem l
  | .afterItem, .keyword .asWord => p.goOn .itemAlias
  | .afterItem, _ => p.atComma l .item
  | .itemAlias, token =>
    match name? token with
    | some name => p.step l.start (.setAlias name) .afterItemAlias
    | none => refuse l (expected .itemAlias)
  | .afterItemAlias, _ => p.atComma l .item
  | .source, _ => p.atSource l
  | .pastSource stop, _ => if l.start < stop then p.goOn (.pastSource stop) else p.atClause l
  | .joinWord head true, .keyword .outer => p.goOn (.joinWord head false)
  | .joinWord head _, .keyword .join => p.goOn (.right head)
  | .right head, .sign .openParen =>
    ⟨[⟨head.start, .beginRight⟩], .ok ⟨[], ⟨p.clauses, head⟩ :: p.around, .clause⟩⟩
  | .afterRight head, .keyword .asWord => p.goOn (.joinAlias head)
  | .afterRight head, .keyword .on => p.goOn (.leftKey head none)
  | .joinAlias head, token =>
    match name? token with
    | some name => p.goOn (.on head name)
    | none => refuse l (expected (.joinAlias head))
  | .on head aliasName, .keyword .on => p.goOn (.leftKey head (some aliasName))
  | .leftKey head aliasName, .path text => p.goOn (.operator (.keys head aliasName text))
  | .rightKey head aliasName left operator, _ => p.atRightKey l head aliasName left operator
  | .groupBy, .keyword .byWord => p.goOn .groupKey
  | .groupKey, .path text => p.step l.start (.groupBy text) .afterGroupKey
  | .afterGroupKey, _ => p.atComma l .groupKey
  | .orderBy, .keyword .byWord => p.goOn .orderKey
  | .orderKey, .path text => p.goOn (.afterOrderKey l.start text)
  | .afterOrderKey start field, _ => p.afterOrderKey l start field
  | .afterDirection, _ => p.atComma l .orderKey
  | .count c, .number text =>
    match count? text with
    | some n => p.step l.start (if c = .limit then .limit n else .offset n) .clause
    | none => fail (.parse l.start (.notCount c.name))
  | .condition connective parens, _ => p.atCondition l connective parens
  | .operator c, _ => p.atOperator l c
  | .afterIs c, .keyword .not => p.goOn (behindOperator c .isNot)
  | .afterIs (.keys head aliasName left), _ => p.atRightKey l head aliasName left .is
  | .afterIs (.test head field), _ => p.atOperand l head field .is
  | .afterNot c _, .keyword .inWord => p.goOn (behindOperator c .notInList)
  | .afterNot c _, .keyword .like => p.goOn (behindOperator c .notLike)
  | .afterNot c start, _ =>
    fail (.parse start (.unexpected Keyword.not.name (expected (.afterNot c start))))
  | .operand head field operator, _ => p.atOperand l head field operator
  | .list head field operator, .sign .openParen => p.goOn (.listStart head field operator)
  | .list head field operator, token =>
    match literal? token with
    | some v => p.test head field operator (.array [v])
    | none => refuse l (expected (.list head field operator))
  | .listStart head field operator, .sign .closeParen => p.test head field operator (.array [])
  | .listStart head field operator, _ => p.atListItem l head field operator []
  | .listItem head field operator items, _ => p.atListItem l head field operator items
  | .afterListItem head field operator items, .sign .comma =>
    p.goOn (.listItem head field operator items)
  | .afterListItem head field operator items, .sign .closeParen =>
    p.test head field operator (.array items)
  | .afterCondition parens, _ => p.afterCondition l parens
  | awaiting, _ => refuse l (expected awaiting)

/-- The end of a query, which has to be in the open unless the query is in parentheses. -/
def atEnd (p : Place) (stop : Nat) : Option QueryError :=
  match p.around with
  | [] => none
  | _ :: _ => some (.parse stop (.unexpectedEnd "')'"))

/-- What the end of the text leads to: steps, and why it comes too early, if so. -/
def finish (p : Place) (stop : Nat) : List PlacedStep × Option QueryError :=
  match p.awaiting with
  | .clause => ([], p.atEnd stop)
  | .afterItem => ([], p.atEnd stop)
  | .afterItemAlias => ([], p.atEnd stop)
  | .pastSource _ => ([], p.atEnd stop)
  | .afterGroupKey => ([], p.atEnd stop)
  | .afterOrderKey start field => ([⟨start, .orderBy field .asc⟩], p.atEnd stop)
  | .afterDirection => ([], p.atEnd stop)
  | .afterCondition [] => ([], p.atEnd stop)
  | .afterNot c start =>
    ([], some (.parse start (.unexpected Keyword.not.name (expected (.afterNot c start)))))
  | awaiting => ([], some (.parse stop (.unexpectedEnd (expected awaiting))))

/-- The steps that lexemes lead to, and why they do not make a statement, if so. -/
def follow (p : Place) (stop : Nat) : List Lexeme → List PlacedStep × Option QueryError
  | [] => p.finish stop
  | l :: rest =>
    match p.meet l with
    | ⟨steps, .error e⟩ => (steps, some e)
    | ⟨steps, .ok next⟩ =>
      let (later, e) := next.follow stop rest
      (steps ++ later, e)

end Place

/-- The steps that a text leads to, up to where it is no statement any more. -/
def stepsOf (text : String) : List PlacedStep × Option QueryError :=
  Place.start.follow text.utf8ByteSize (Lexeme.ofText text)

end RecordQuery.Statement
