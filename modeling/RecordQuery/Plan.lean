import RecordQuery.Query

namespace RecordQuery

/-- The stages that a query is carried out in, each on top of the one that its rows come from. -/
inductive Plan where
  | scan (locator : Option Locator)
  | join (input right : Plan) (terms : JoinTerms)
  | filter (input : Plan) (conditions : ConditionTree)
  | project (input : Plan) (selectAll : Bool) (fields : List SelectedField)
  | aggregate (input : Plan) (selectAll : Bool) (fields : List SelectedField)
      (groupBy : List FieldPath)
  | having (input : Plan) (conditions : ConditionTree)
  | distinct (input : Plan)
  | sort (input : Plan) (keys : List OrderKey) (seed : Option Nat)
  | paginate (input : Plan) (offset : Nat) (limit : Option Nat)

namespace Plan

/-- Puts a stage on top of a plan if it has something to do. -/
def stageIf (present : Bool) (stage : Plan → Plan) (input : Plan) : Plan :=
  if present then stage input else input

mutual

/-- The plan of a query. The stages stand in one order, and those without a part in the query are
left out. -/
def ofQuery : Query → Plan
  | { selectAll, fields, distinct := once, locator, joins, filter := before, having := after,
      groupBy, orderBy, limit, offset, settings } =>
    stageIf (offset.isSome || limit.isSome) (.paginate · (offset.getD 0) limit) <|
    stageIf (!orderBy.isEmpty) (.sort · orderBy settings.seed) <|
    stageIf once .distinct <|
    stageIf (!after.isEmpty) (.having · after) <|
    (if !groupBy.isEmpty || fields.any SelectedField.isAggregate then
      (.aggregate · selectAll fields groupBy)
    else (.project · selectAll fields)) <|
    stageIf (!before.isEmpty) (.filter · before) <|
    ofJoins (.scan locator) joins

/-- Joins the rows of a plan with those of other queries, one after the other. -/
def ofJoins (input : Plan) : List (JoinWith Query) → Plan
  | [] => input
  | ⟨right, terms⟩ :: rest => ofJoins (.join input (ofQuery right) terms) rest

end

/-- The name of the last stage. -/
def stageName : Plan → String
  | .scan _ => "Scan"
  | .join _ _ terms => if terms.operator.isEquality then "HashJoin" else "NestedLoopJoin"
  | .filter _ _ => "Filter"
  | .project _ _ _ => "Project"
  | .aggregate _ _ _ _ => "HashAggregate"
  | .having _ _ => "Having"
  | .distinct _ => "Distinct"
  | .sort _ _ _ => "Sort"
  | .paginate _ _ _ => "Paginate"

/-- The names of the stages, from the last one to the first one. -/
def stages : Plan → List String
  | .scan locator => [(scan locator).stageName]
  | .join input right terms => (join input right terms).stageName :: input.stages
  | .filter input c => (filter input c).stageName :: input.stages
  | .project input all fields => (project input all fields).stageName :: input.stages
  | .aggregate input all fields keys => (aggregate input all fields keys).stageName :: input.stages
  | .having input c => (having input c).stageName :: input.stages
  | .distinct input => (distinct input).stageName :: input.stages
  | .sort input keys seed => (sort input keys seed).stageName :: input.stages
  | .paginate input offset limit => (paginate input offset limit).stageName :: input.stages

def hasAggregation : Plan → Bool
  | .scan _ => false
  | .join input _ _ => input.hasAggregation
  | .filter input _ => input.hasAggregation
  | .project input _ _ => input.hasAggregation
  | .aggregate _ _ _ _ => true
  | .having input _ => input.hasAggregation
  | .distinct input => input.hasAggregation
  | .sort input _ _ => input.hasAggregation
  | .paginate input _ _ => input.hasAggregation

/-- Whether all rows are held in memory, as joins and sorting need it. -/
def materializes : Plan → Bool
  | .scan _ => false
  | .join _ _ _ => true
  | .filter input _ => input.materializes
  | .project input _ _ => input.materializes
  | .aggregate input _ _ _ => input.materializes
  | .having input _ => input.materializes
  | .distinct input => input.materializes
  | .sort _ _ _ => true
  | .paginate input _ _ => input.materializes

/-- What a line shows of the last stage. -/
def detailChars : Plan → List Char
  | .scan locator => '(' :: (locator.getD .all).displayChars ++ [')']
  | .join _ _ terms =>
    '(' :: terms.kind.name.toList ++ ", ".toList ++ terms.leftKey.text.toList ++ ' ' ::
      terms.operator.symbol.toList ++ ' ' :: terms.rightKey.text.toList ++
      (match terms.aliasName with
        | some aliasName => ", alias=".toList ++ aliasName.toList
        | none => []) ++ [')']
  | .filter _ conditions => '(' :: Condition.displayChildren conditions.children ++ [')']
  | .project _ selectAll fields => '(' :: selectionChars selectAll fields ++ [')']
  | .aggregate _ selectAll fields groupBy =>
    '(' :: selectionChars selectAll fields ++ "; group by [".toList ++
      commaSeparated (groupBy.map fun path => path.text.toList) ++ "])".toList
  | .having _ conditions => '(' :: Condition.displayChildren conditions.children ++ [')']
  | .distinct _ => []
  | .sort _ keys _ => '(' :: commaSeparated (keys.map OrderKey.displayChars) ++ [')']
  | .paginate _ offset limit =>
    "(offset=".toList ++ Decimal.digitChars offset ++
      (match limit with
        | some n => ", limit=".toList ++ Decimal.digitChars n
        | none => []) ++ [')']

/-- A line of the text of a plan. -/
def line (depth : Nat) (cs : List Char) : List Char :=
  List.replicate (2 * depth) ' ' ++ cs ++ ['\n']

/-- The line of the last stage. -/
def stageLine (depth : Nat) (plan : Plan) : List Char :=
  line depth (plan.stageName.toList ++ plan.detailChars)

/-- The text of a plan, a line for each stage with the first stage at the bottom. The right side of
a join stands above its left side. -/
def explainChars (depth : Nat) : Plan → List Char
  | .scan locator => stageLine depth (.scan locator)
  | .join input right terms =>
    stageLine depth (.join input right terms) ++ line (depth + 1) "Build:".toList ++
      right.explainChars (depth + 2) ++ input.explainChars (depth + 1)
  | .filter input c => stageLine depth (.filter input c) ++ input.explainChars (depth + 1)
  | .project input all fields =>
    stageLine depth (.project input all fields) ++ input.explainChars (depth + 1)
  | .aggregate input all fields keys =>
    stageLine depth (.aggregate input all fields keys) ++ input.explainChars (depth + 1)
  | .having input c => stageLine depth (.having input c) ++ input.explainChars (depth + 1)
  | .distinct input => stageLine depth (.distinct input) ++ input.explainChars (depth + 1)
  | .sort input keys seed =>
    stageLine depth (.sort input keys seed) ++ input.explainChars (depth + 1)
  | .paginate input offset limit =>
    stageLine depth (.paginate input offset limit) ++ input.explainChars (depth + 1)

def explain (plan : Plan) : String :=
  String.ofList (plan.explainChars 0)

end Plan

end RecordQuery
