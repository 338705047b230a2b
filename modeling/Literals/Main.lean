/-
# The program

Hands the arguments, the files and the standard streams to `Command.run`, and writes what that
returns.
-/
import Literals.Command.Run

namespace Literals

/-- Reads a stream to its end. -/
partial def readAll (stream : IO.FS.Stream) (sofar : ByteArray) : IO ByteArray := do
  let chunk ← stream.read 65536
  if chunk.isEmpty then return sofar else readAll stream (sofar ++ chunk)

/-- What stands at a place of the file system. -/
def entryAt (p : Place) : IO (Option Entry) := do
  try
    let bytes ← IO.FS.readBinFile ("/" ++ "/".intercalate p)
    return some (.file bytes.toList)
  catch
    | .inappropriateType .. => return some .directory
    | .noFileOrDirectory .. => return none
    | e => throw e

/-- The surroundings of the program. -/
def surroundings : IO (World IO) := do
  let directory ← IO.currentDir
  let input ← IO.getStdin
  return {
    workingDirectory := (WrittenPath.ofString directory.toString).names
    look := entryAt
    input := do return (← readAll input .empty).toList }

/-- What a file that cannot be read is reported with. -/
def AccessError.text : AccessError → String
  | .notFound => "no such file"
  | .notADirectory => "not a directory"
  | .isADirectory => "is a directory"

end Literals

open Literals in
/-- Runs the program with the given arguments. -/
def main (args : List String) : IO UInt32 := do
  let stdout ← IO.getStdout
  let stderr ← IO.getStderr
  let streams : Command.Streams := ⟨← stdout.isTty, ← stderr.isTty, ← stdout.isTty⟩
  let report ← Command.run (← surroundings) streams args
  stdout.putStr report.transcript.output
  stderr.putStr report.transcript.error
  match report.ending with
  | .exit code => return code.toUInt32
  | .noAccess e => stderr.putStrLn e.text; return 1
  | .noSettings _ => stderr.putStrLn "a section is not a table"; return 1
