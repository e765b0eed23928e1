namespace RecordQuery

/-- Why a value, a record or a path could not be read. -/
inductive ValueError where
  | missingField (path : String)
  | invalidPath (text : String)
  | notRecord (found : String)
  | json
  deriving DecidableEq, Repr

/-- Why no text could be read from a file. -/
inductive ReadFault where
  | absent
  | notText
  deriving DecidableEq, Repr

/-- Why a source could not be opened or read on. What is wrong in a JSON text is not told. -/
inductive SourceFault where
  | unreadable (fault : ReadFault)
  | malformed
  | unknownDataset (name : String)
  | missingPath (path : String)
  | wrongKind (path found : String)
  | notList (found : String)
  | notRecord (found : String)
  | noFile
  | unsupportedFormat (format : String)
  deriving DecidableEq, Repr

/-- Why a step in the making of a query was refused. -/
inductive BuildFault where
  | invalidPath (text : String)
  | arity (function expected : String) (given : Nat)
  | starRefused (function : String)
  | nestedAggregate (inner outer : String)
  | aggregateArgument (function : String)
  | alreadySelected (name : String)
  | aliasWithoutField
  | emptyAlias
  | alreadyAliased (field : String)
  | aliasTaken (name : String)
  | groupNotOpen
  | groupsNotClosed (count : Nat)
  | joinWithoutKeys (kind : String)
  | emptyJoinAlias
  | keysWithoutJoin
  | pendingAlias (name : String)
  | directionWithoutKey (direction : String)
  | pageZero
  deriving DecidableEq, Repr

/-- Why the text of a query was refused at a position. -/
inductive ParseFault where
  | unterminated (text : String)
  | unexpected (token expected : String)
  | unexpectedEnd (expected : String)
  | duplicateClause (clause : String)
  | clauseOrder (clause previous : String)
  | notCount (clause : String)
  | invalidArgument (argument function : String)
  | build (fault : BuildFault)
  deriving DecidableEq, Repr

/-- Everything that can go wrong with a query. The text of a bad operand is kept as it is shown. -/
inductive QueryError where
  | parse (position : Nat) (fault : ParseFault)
  | unknownFunction (name : String)
  | build (fault : BuildFault)
  | missingField (path : String)
  | notNumeric (operand function : String)
  | divisionByZero
  | expectedRecord (found : String)
  | expectedInteger (function operand : String)
  | notDate (operand : String)
  | invalidDateFormat (format : String)
  | aggregateOutsideGroup (function : String)
  | notAggregate (function : String)
  | zeroStep
  | source (fault : SourceFault)
  deriving DecidableEq, Repr

def ValueError.message : ValueError → String
  | .missingField path => "Field not found: " ++ path
  | .invalidPath text => "Invalid field path: " ++ text
  | .notRecord found => "Expected a record, found " ++ found
  | .json => "JSON error"

def ReadFault.message : ReadFault → String
  | .absent => "No such file or directory (os error 2)"
  | .notText => "stream did not contain valid UTF-8"

def SourceFault.message : SourceFault → String
  | .unreadable fault => "IO error: " ++ fault.message
  | .malformed => "JSON error"
  | .unknownDataset name => "Source error: Unknown dataset: " ++ name
  | .missingPath path => "Source error: Query path not found: " ++ path
  | .wrongKind path found =>
    "Source error: Cannot apply query path " ++ path ++ " to " ++ found
  | .notList found => "Source error: Expected a list of records, found " ++ found
  | .notRecord found => "Source error: Expected a record, found " ++ found
  | .noFile => "Source error: No input file given"
  | .unsupportedFormat format => "Source error: Unsupported format: " ++ format

def BuildFault.message : BuildFault → String
  | .invalidPath text => "Invalid field path: " ++ text
  | .arity function expected given =>
    function ++ " expects " ++ expected ++ " argument(s), got " ++ toString given
  | .starRefused function => function ++ " does not accept *"
  | .nestedAggregate inner outer =>
    "Aggregate " ++ inner ++ " cannot be nested inside " ++ outer
  | .aggregateArgument function => "Aggregate " ++ function ++ " only accepts field arguments"
  | .alreadySelected name => "Field " ++ name ++ " is already selected"
  | .aliasWithoutField => "alias() must follow select()"
  | .emptyAlias => "Alias cannot be empty"
  | .alreadyAliased field => "Field " ++ field ++ " is already aliased"
  | .aliasTaken name => "Alias " ++ name ++ " collides with a selected field"
  | .groupNotOpen => "end_group() without an open group"
  | .groupsNotClosed count => toString count ++ " condition group(s) not closed"
  | .joinWithoutKeys kind => kind ++ " JOIN registered without on()"
  | .emptyJoinAlias => "Join alias cannot be empty"
  | .keysWithoutJoin => "on() without a pending join"
  | .pendingAlias name => "Join alias " ++ name ++ " referenced before on()"
  | .directionWithoutKey direction => direction ++ " without order_by()"
  | .pageZero => "Page numbers start at 1"

def ParseFault.message : ParseFault → String
  | .unterminated text => "Unterminated string " ++ text
  | .unexpected token expected => "Unexpected token '" ++ token ++ "', expected " ++ expected
  | .unexpectedEnd expected => "Unexpected end of input, expected " ++ expected
  | .duplicateClause clause => "Duplicate " ++ clause ++ " clause"
  | .clauseOrder clause previous => clause ++ " clause cannot follow " ++ previous
  | .notCount clause => clause ++ " expects a non-negative integer"
  | .invalidArgument argument function =>
    "Invalid argument '" ++ argument ++ "' in " ++ function ++ "()"
  | .build fault => fault.message

def QueryError.message : QueryError → String
  | .parse position fault => "Parse error at " ++ toString position ++ ": " ++ fault.message
  | .unknownFunction name => "Unknown function: " ++ name
  | .build fault => "Build error: " ++ fault.message
  | .missingField path => "Field not found: " ++ path
  | .notNumeric operand function => "Value is not numeric: " ++ operand ++ " in " ++ function
  | .divisionByZero => "Division by zero"
  | .expectedRecord found => "Type error: Expected a record, found " ++ found
  | .expectedInteger function operand =>
    "Type error: " ++ function ++ " expects an integer, got " ++ operand
  | .notDate operand => "Type error: Cannot interpret " ++ operand ++ " as a date"
  | .invalidDateFormat format => "Type error: Invalid date format: " ++ format
  | .aggregateOutsideGroup function =>
    "Execution error: " ++ function ++ " is an aggregate function and needs a group"
  | .notAggregate function => "Execution error: " ++ function ++ " is not an aggregate function"
  | .zeroStep => "Execution error: fetch_nth step must be positive"
  | .source fault => "Source error: " ++ fault.message

/-- The phase in which an error belongs: reading a query, building it, evaluating it, or reading
its source. -/
inductive ErrorKind where
  | parse
  | build
  | evaluation
  | source
  deriving DecidableEq, Repr

def QueryError.kind : QueryError → ErrorKind
  | .parse .. | .unknownFunction _ => .parse
  | .build _ => .build
  | .source _ => .source
  | _ => .evaluation

/-- A value error as it shows in a query. -/
def QueryError.ofValue : ValueError → QueryError
  | .missingField path => .missingField path
  | .invalidPath text => .build (.invalidPath text)
  | .notRecord found => .expectedRecord found
  | .json => .source .malformed

end RecordQuery
