import Shortfall.Calendar
import Shortfall.Command
import Shortfall.Files.Disk
import Std.Time.DateTime.Timestamp

/-!
# The program

Runs the command line on the files of the disk. Reports go to the standard output, the log and the
error that ends a run to the standard error.
-/

namespace Shortfall.Program

/-- Bytes in hexadecimal. -/
def hex (bytes : List UInt8) : Text := bytes.flatMap fun byte => Text.ofHex 2 byte.toNat

/-- A random identifier in five groups of digits. -/
def identifier (bytes : List UInt8) : Text :=
  let marked := bytes.mapIdx fun index byte =>
    if index = 6 then (byte &&& 0x0F) ||| 0x40
    else if index = 8 then (byte &&& 0x3F) ||| 0x80
    else byte
  Text.joinWith "-" [hex (marked.take 4), hex ((marked.drop 4).take 2),
    hex ((marked.drop 6).take 2), hex ((marked.drop 8).take 2), hex (marked.drop 10)]

/-- A variable of the environment. -/
def environment (name : Text) : IO (Option Text) := do
  return (← IO.getEnv name.toString).map Text.ofString

def put (stream : IO.FS.Stream) (text : Text) : IO Unit := do
  stream.write ⟨text.toArray⟩
  stream.flush

end Shortfall.Program

open Shortfall Shortfall.Program in
def main (arguments : List String) : IO UInt32 := do
  let start ← IO.monoMsNow
  let now := (← Std.Time.Timestamp.now).toMillisecondsSinceUnixEpoch.toInt
  let surroundings : Command.Surroundings IO :=
    { environment
      runId := identifier (← IO.getRandomBytes 16).toList
      timestamp := Calendar.stamp (now / 1000)
      fileTime := Calendar.fileTime now
      elapsedMs := return (← IO.monoMsNow) - start }
  let finished ← Command.run surroundings (arguments.map Text.ofString)
  let output ← IO.getStdout
  let messages ← IO.getStderr
  let time := Calendar.stamp (now / 1000) ("." ++ Text.ofNatPadded 3 (now % 1000).toNat)
  for entry in finished.log.shown finished.outcome.entries do
    put messages (finished.log.format.line time entry)
  put output finished.outcome.output
  match finished.outcome.error? with
  | none => return 0
  | some error =>
      put messages ("Error: " ++ error.message ++ "\n")
      return 1
