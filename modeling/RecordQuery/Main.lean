import Std.Time.DateTime.Timestamp
import RecordQuery.CommandLine

namespace RecordQuery.CommandLine

/-- The contents of the files that can be read. -/
def readFiles : List String → IO FileContents
  | [] => pure []
  | path :: rest => do
    let others ← readFiles rest
    try
      let contents ← IO.FS.readBinFile path
      pure ((path, contents) :: others)
    catch _ => pure others

/-- The present moment, and a text that no other run has. -/
def readAmbient : IO Ambient := do
  let nanos := (← Std.Time.Timestamp.now).toNanosecondsSinceUnixEpoch.val
  let seconds := nanos / 1000000000
  let bytes ← IO.getRandomBytes 32
  let seed := ",".intercalate (bytes.toList.map toString)
  pure ⟨⟨seconds / 86400, (seconds % 86400).toNat, (nanos % 1000000000).toNat⟩, seed⟩

/-- What a request needs of the world. -/
def readSurroundings (request : Request) : IO Surroundings := do
  let terminal ← (← IO.getStdout).isTty
  let ambient ← readAmbient
  match request with
  | .run i =>
    let input ← if i.readsInput then (← IO.getStdin).readToEnd else pure ""
    let files ← readFiles (i.paths input)
    pure ⟨files, input, terminal, ambient⟩
  | _ => pure ⟨[], "", terminal, ambient⟩

end RecordQuery.CommandLine

open RecordQuery.CommandLine

/-- Runs a query over JSON files and prints its rows. -/
def main (arguments : List String) : IO UInt32 := do
  let environment ← IO.getEnv "FIQUELA_CONFIG"
  let request := Request.ofArguments environment arguments
  let surroundings ← readSurroundings request
  let answer := request.answer environment surroundings
  (← IO.getStdout).putStr answer.output
  (← IO.getStderr).putStr answer.errors
  pure (UInt32.ofNat answer.code)
