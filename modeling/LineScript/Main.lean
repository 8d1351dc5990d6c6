import LineScript.Shell

/-!
This module contains the program: it looks up files, reads lines and carries out what the shell says.
-/

namespace LineScript.Shell

/--
What a path leads to on the disk.
-/
def lookupFile (path : Path) : IO Entry := do
  try
    let bytes ← IO.FS.readBinFile path.text.toString
    return .file ((String.fromUTF8? bytes).map Text.ofString)
  catch
    | .noFileOrDirectory .. => return .absent
    | .inappropriateType .. => return .blocked
    | .invalidArgument .. => return .tooLong
    | _ => return .directory

/--
The number of milliseconds in a number of seconds, as far as a wait can be long.
-/
def milliseconds : Binary64 → UInt32
  | .finite false mantissa exponent =>
    let (num, den) := Binary64.ratio false mantissa exponent
    .ofNat (min (num.toNat * 1000 / den) 0xffffffff)
  | _ => 0

/--
Carry out an output.
-/
def Output.perform : Output → IO Unit
  | .out t => do
    let stdout ← IO.getStdout
    stdout.putStr t.toString
    stdout.flush
  | .err t => do (← IO.getStderr).putStr t.toString
  | .wait seconds => IO.sleep (milliseconds seconds)

/--
Carry out an ending: say what went wrong, if it was not said yet, and give the exit code.
-/
def Ending.perform (ending : Ending) : IO UInt32 := do
  if let some message := ending.message? then (errLine message).perform
  match ending with
  | .exit code => return .ofNat code
  | _ => return 1

/--
Answer what is typed until the shell ends.
-/
partial def converse (config : Config) (session : Session) : IO Ending := do
  (prompt config).forM Output.perform
  let line ← (← IO.getStdin).getLine
  let input := if line.isEmpty then .endOfInput else .line (Text.ofString line)
  let (outputs, next) := respond config session input
  outputs.forM Output.perform
  match next with
  | .inl session => converse config session
  | .inr ending => return ending

/--
Run the program with settings that were loaded.
-/
def serve (config : Config) (arguments : List Text) : IO Ending := do
  match scriptArgument? arguments with
  | some argument =>
    let outcome := runFile config argument (← lookupFile (Path.ofText argument))
    outcome.outputs.forM Output.perform
    return outcome.ending
  | none =>
    let (outputs, ending) := opening config
    outputs.forM Output.perform
    match ending with
    | some ending => return ending
    | none => converse config (session config)

end LineScript.Shell

open LineScript in
/--
The program.
-/
def main (arguments : List String) : IO UInt32 := do
  let config := (← IO.getEnv "QUILL_CONFIG").map Text.ofString
  let debug := (← IO.getEnv "QUILL_DEBUG").map Text.ofString
  let environment : Environment := { config, debug }
  let directory := Text.ofString (← IO.currentDir).toString
  let location := Config.locate none environment directory
  let ending ←
    match Config.load location environment (← Shell.lookupFile location.path) with
    | .error problem => pure (.badConfig problem)
    | .ok config => Shell.serve config (arguments.map Text.ofString)
  ending.perform
