import RecordQuery.Statement

namespace RecordQuery.Statement.Place

/-- What a reader does with a lexeme where it stands, one constructor for each way. What it awaits
and what the lexeme has to be for that comes first, and then the move. -/
inductive Meets (p : Place) (l : Lexeme) : Move → Prop
  | clause : p.awaiting = .clause → Meets p l (p.atClause l)
  | distinct : p.awaiting = .itemAfterSelect → l.token = .keyword .distinct →
      Meets p l (p.step l.start .distinct .item)
  | firstItem : p.awaiting = .itemAfterSelect → Meets p l (p.atItem l)
  | item : p.awaiting = .item → Meets p l (p.atItem l)
  | asItem : p.awaiting = .afterItem → l.token = .keyword .asWord →
      Meets p l (p.goOn .itemAlias)
  | afterItem : p.awaiting = .afterItem → Meets p l (p.atComma l .item)
  | itemAlias {name : String} : p.awaiting = .itemAlias → name? l.token = some name →
      Meets p l (p.step l.start (.setAlias name) .afterItemAlias)
  | afterItemAlias : p.awaiting = .afterItemAlias → Meets p l (p.atComma l .item)
  | source : p.awaiting = .source → Meets p l (p.atSource l)
  | inSource {stop : Nat} : p.awaiting = .pastSource stop → l.start < stop →
      Meets p l (p.goOn (.pastSource stop))
  | pastSource {stop : Nat} : p.awaiting = .pastSource stop → stop ≤ l.start →
      Meets p l (p.atClause l)
  | outer {head : JoinHead} : p.awaiting = .joinWord head true → l.token = .keyword .outer →
      Meets p l (p.goOn (.joinWord head false))
  | join {head : JoinHead} {outer : Bool} : p.awaiting = .joinWord head outer →
      l.token = .keyword .join → Meets p l (p.goOn (.right head))
  | right {head : JoinHead} : p.awaiting = .right head → l.token = .sign .openParen →
      Meets p l
        ⟨[⟨head.start, .beginRight⟩], .ok ⟨[], ⟨p.clauses, head⟩ :: p.around, .clause⟩⟩
  | asRight {head : JoinHead} : p.awaiting = .afterRight head → l.token = .keyword .asWord →
      Meets p l (p.goOn (.joinAlias head))
  | onKeys {head : JoinHead} : p.awaiting = .afterRight head → l.token = .keyword .on →
      Meets p l (p.goOn (.leftKey head none))
  | joinAlias {head : JoinHead} {name : String} : p.awaiting = .joinAlias head →
      name? l.token = some name → Meets p l (p.goOn (.on head name))
  | onAliased {head : JoinHead} {aliasName : String} : p.awaiting = .on head aliasName →
      l.token = .keyword .on → Meets p l (p.goOn (.leftKey head (some aliasName)))
  | leftKey {head : JoinHead} {aliasName : Option String} {text : String} :
      p.awaiting = .leftKey head aliasName → l.token = .path text →
      Meets p l (p.goOn (.operator (.keys head aliasName text)))
  | rightKey {head : JoinHead} {aliasName : Option String} {left : String} {operator : Operator} :
      p.awaiting = .rightKey head aliasName left operator →
      Meets p l (p.atRightKey l head aliasName left operator)
  | groupBy : p.awaiting = .groupBy → l.token = .keyword .byWord → Meets p l (p.goOn .groupKey)
  | groupKey {text : String} : p.awaiting = .groupKey → l.token = .path text →
      Meets p l (p.step l.start (.groupBy text) .afterGroupKey)
  | afterGroupKey : p.awaiting = .afterGroupKey → Meets p l (p.atComma l .groupKey)
  | orderBy : p.awaiting = .orderBy → l.token = .keyword .byWord → Meets p l (p.goOn .orderKey)
  | orderKey {text : String} : p.awaiting = .orderKey → l.token = .path text →
      Meets p l (p.goOn (.afterOrderKey l.start text))
  | afterOrderKey {start : Nat} {field : String} : p.awaiting = .afterOrderKey start field →
      Meets p l (p.afterOrderKey l start field)
  | afterDirection : p.awaiting = .afterDirection → Meets p l (p.atComma l .orderKey)
  | count {c : Clause} {text : String} {n : Nat} : p.awaiting = .count c →
      l.token = .number text → count? text = some n →
      Meets p l (p.step l.start (if c = .limit then .limit n else .offset n) .clause)
  | notCount {c : Clause} {text : String} : p.awaiting = .count c → l.token = .number text →
      count? text = none → Meets p l (fail (.parse l.start (.notCount c.name)))
  | condition {connective : Connective} {parens : List Nat} :
      p.awaiting = .condition connective parens → Meets p l (p.atCondition l connective parens)
  | operator {c : Comparison} : p.awaiting = .operator c → Meets p l (p.atOperator l c)
  | isNot {c : Comparison} : p.awaiting = .afterIs c → l.token = .keyword .not →
      Meets p l (p.goOn (behindOperator c .isNot))
  | isKey {head : JoinHead} {aliasName : Option String} {left : String} :
      p.awaiting = .afterIs (.keys head aliasName left) →
      Meets p l (p.atRightKey l head aliasName left .is)
  | isOperand {head : TestHead} {field : String} : p.awaiting = .afterIs (.test head field) →
      Meets p l (p.atOperand l head field .is)
  | notIn {c : Comparison} {start : Nat} : p.awaiting = .afterNot c start →
      l.token = .keyword .inWord → Meets p l (p.goOn (behindOperator c .notInList))
  | notLike {c : Comparison} {start : Nat} : p.awaiting = .afterNot c start →
      l.token = .keyword .like → Meets p l (p.goOn (behindOperator c .notLike))
  | notAlone {c : Comparison} {start : Nat} : p.awaiting = .afterNot c start →
      Meets p l (fail (.parse start (.unexpected Keyword.not.name (expected (.afterNot c start)))))
  | operand {head : TestHead} {field : String} {operator : Operator} :
      p.awaiting = .operand head field operator → Meets p l (p.atOperand l head field operator)
  | opensList {head : TestHead} {field : String} {operator : Operator} :
      p.awaiting = .list head field operator → l.token = .sign .openParen →
      Meets p l (p.goOn (.listStart head field operator))
  | soleItem {head : TestHead} {field : String} {operator : Operator} {v : Value} :
      p.awaiting = .list head field operator → literal? l.token = some v →
      Meets p l (p.test head field operator (.array [v]))
  | emptyList {head : TestHead} {field : String} {operator : Operator} :
      p.awaiting = .listStart head field operator → l.token = .sign .closeParen →
      Meets p l (p.test head field operator (.array []))
  | firstListItem {head : TestHead} {field : String} {operator : Operator} :
      p.awaiting = .listStart head field operator →
      Meets p l (p.atListItem l head field operator [])
  | listItem {head : TestHead} {field : String} {operator : Operator} {items : List Value} :
      p.awaiting = .listItem head field operator items →
      Meets p l (p.atListItem l head field operator items)
  | afterListItem {head : TestHead} {field : String} {operator : Operator} {items : List Value} :
      p.awaiting = .afterListItem head field operator items → l.token = .sign .comma →
      Meets p l (p.goOn (.listItem head field operator items))
  | closesList {head : TestHead} {field : String} {operator : Operator} {items : List Value} :
      p.awaiting = .afterListItem head field operator items → l.token = .sign .closeParen →
      Meets p l (p.test head field operator (.array items))
  | afterCondition {parens : List Nat} : p.awaiting = .afterCondition parens →
      Meets p l (p.afterCondition l parens)
  | refused {awaiting : Awaiting} : p.awaiting = awaiting → Meets p l (refuse l (expected awaiting))

/-- Whatever a reader awaits, it meets a lexeme in one of these ways. -/
theorem meets_meet (p : Place) (l : Lexeme) : Meets p l (p.meet l) := by
  unfold meet
  -- The goals follow the order in which the reader tells its places apart.
  split
  · exact .clause ‹_›
  · exact .distinct ‹_› ‹_›
  · exact .firstItem ‹_›
  · exact .item ‹_›
  · exact .asItem ‹_› ‹_›
  · exact .afterItem ‹_›
  · split
    · exact .itemAlias ‹_› ‹_›
    · exact .refused ‹_›
  · exact .afterItemAlias ‹_›
  · exact .source ‹_›
  · split
    · exact .inSource ‹_› ‹_›
    · exact .pastSource ‹_› (Nat.not_lt.mp ‹_›)
  · exact .outer ‹_› ‹_›
  · exact .join ‹_› ‹_›
  · exact .right ‹_› ‹_›
  · exact .asRight ‹_› ‹_›
  · exact .onKeys ‹_› ‹_›
  · split
    · exact .joinAlias ‹_› ‹_›
    · exact .refused ‹_›
  · exact .onAliased ‹_› ‹_›
  · exact .leftKey ‹_› ‹_›
  · exact .rightKey ‹_›
  · exact .groupBy ‹_› ‹_›
  · exact .groupKey ‹_› ‹_›
  · exact .afterGroupKey ‹_›
  · exact .orderBy ‹_› ‹_›
  · exact .orderKey ‹_› ‹_›
  · exact .afterOrderKey ‹_›
  · exact .afterDirection ‹_›
  · split
    · exact .count ‹_› ‹_› ‹_›
    · exact .notCount ‹_› ‹_› ‹_›
  · exact .condition ‹_›
  · exact .operator ‹_›
  · exact .isNot ‹_› ‹_›
  · exact .isKey ‹_›
  · exact .isOperand ‹_›
  · exact .notIn ‹_› ‹_›
  · exact .notLike ‹_› ‹_›
  · exact .notAlone ‹_›
  · exact .operand ‹_›
  · exact .opensList ‹_› ‹_›
  · split
    · exact .soleItem ‹_› ‹_›
    · exact .refused ‹_›
  · exact .emptyList ‹_› ‹_›
  · exact .firstListItem ‹_›
  · exact .listItem ‹_›
  · exact .afterListItem ‹_› ‹_›
  · exact .closesList ‹_› ‹_›
  · exact .afterCondition ‹_›
  · exact .refused rfl

/-- What a reader does at the end of the text, one constructor for each way. What it awaits comes
first, and then the steps and what is wrong. -/
inductive Finishes (p : Place) (stop : Nat) : List PlacedStep × Option QueryError → Prop
  | clause : p.awaiting = .clause → Finishes p stop ([], p.atEnd stop)
  | afterItem : p.awaiting = .afterItem → Finishes p stop ([], p.atEnd stop)
  | afterItemAlias : p.awaiting = .afterItemAlias → Finishes p stop ([], p.atEnd stop)
  | pastSource {position : Nat} : p.awaiting = .pastSource position →
      Finishes p stop ([], p.atEnd stop)
  | afterGroupKey : p.awaiting = .afterGroupKey → Finishes p stop ([], p.atEnd stop)
  | afterOrderKey {start : Nat} {field : String} : p.awaiting = .afterOrderKey start field →
      Finishes p stop ([⟨start, .orderBy field .asc⟩], p.atEnd stop)
  | afterDirection : p.awaiting = .afterDirection → Finishes p stop ([], p.atEnd stop)
  | afterCondition : p.awaiting = .afterCondition [] → Finishes p stop ([], p.atEnd stop)
  | notAlone {c : Comparison} {start : Nat} : p.awaiting = .afterNot c start →
      Finishes p stop
        ([], some (.parse start (.unexpected Keyword.not.name (expected (.afterNot c start)))))
  | early {awaiting : Awaiting} : p.awaiting = awaiting →
      Finishes p stop ([], some (.parse stop (.unexpectedEnd (expected awaiting))))

/-- Whatever a reader awaits, the end of the text leads to one of these. -/
theorem finishes_finish (p : Place) (stop : Nat) : Finishes p stop (p.finish stop) := by
  unfold finish
  split
  · exact .clause ‹_›
  · exact .afterItem ‹_›
  · exact .afterItemAlias ‹_›
  · exact .pastSource ‹_›
  · exact .afterGroupKey ‹_›
  · exact .afterOrderKey ‹_›
  · exact .afterDirection ‹_›
  · exact .afterCondition ‹_›
  · exact .notAlone ‹_›
  · exact .early rfl

end RecordQuery.Statement.Place
