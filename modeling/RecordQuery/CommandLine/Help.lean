namespace RecordQuery.CommandLine

def programName : String :=
  "fiquela"

def versionText : String :=
  programName ++ " 0.1.0\n"

def usageLine : String :=
  "Usage: " ++ programName ++ " [OPTIONS] [QUERY_TEXT]\n"

/-- The description of the arguments. It shows which settings the environment names. -/
def helpText (environment : Option String) : String :=
  "Run SQL-like queries against JSON and NDJSON files\n\n" ++ usageLine ++
    "\nArguments:\n" ++
    "  [QUERY_TEXT]  查询文本,未给出时从 stdin 读取\n" ++
    "\nOptions:\n" ++
    "  -q, --query <QUERY>    \n" ++
    "  -f, --file <FILE>      默认输入文件\n" ++
    "      --format <FORMAT>  [default: table]\n" ++
    "      --explain          只输出执行计划\n" ++
    "      --config <CONFIG>  [env: FIQUELA_CONFIG=" ++ environment.getD "" ++ "]\n" ++
    "      --no-color         \n" ++
    "  -h, --help             Print help\n" ++
    "  -V, --version          Print version\n"

/-- What is said when the arguments cannot be understood. -/
def misuseText : String :=
  "error: unexpected arguments\n\n" ++ usageLine ++
    "\nFor more information, try '--help'.\n"

end RecordQuery.CommandLine
