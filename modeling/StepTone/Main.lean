/-
StepTone.Main — the command in the operating system.
-/
import Std.Time.DateTime.Timestamp
import StepTone.Chart.Html
import StepTone.Command.Run
import StepTone.Journal.Clock
import StepTone.Toml.Document

namespace StepTone.Command

/-- What the operating system says when an operation on a path fails. -/
def reason : IO.Error → String
  | .noFileOrDirectory .. => "no such file or directory"
  | .inappropriateType .. => "is a directory"
  | .permissionDenied .. => "permission denied"
  | error => toString error

/-- An operation on a path, with its failure as a fault. -/
def attempt {α : Type} (verb path : String) (action : IO α) : IO (Except Fault α) := do
  try
    return .ok (← action)
  catch error =>
    let verb := match error with
      | .inappropriateType .. => verb
      | _ => "open"
    return .error (FileTree.failure verb path (reason error))

/-- An operation of which only the failure counts. -/
def failureOf (action : IO (Except Fault Unit)) : IO (Option Fault) := do
  match ← action with
  | .ok () => return none
  | .error fault => return some fault

/-- Writes to the standard output and sees the text through. -/
def printOut (text : String) : IO (Option Fault) := do
  try
    let output ← IO.getStdout
    output.putStr text
    output.flush
    return none
  catch error => return some (.plain (toString error))

/-- The variables of the environment that the command looks at. -/
def watched : List String :=
  ["DELAYTABLE_LOG_LEVEL", "DELAYTABLE_LOG_FORMAT", "DELAYTABLE_LOG_CALLER", "NO_COLOR"]

/-- The surroundings that the operating system makes. -/
def systemSurroundings : IO (Surroundings IO) := do
  let values ← watched.mapM fun name => do return (name, (← IO.getEnv name).getD "")
  let errors ← IO.getStderr
  return {
    read := fun path => attempt "read" path (IO.FS.readFile path)
    save := fun path text => failureOf (attempt "open" path (IO.FS.writeFile path text))
    print := printOut
    report := fun text => errors.putStr text
    stamp := do
      let now ← Std.Time.Timestamp.now
      return .ofNanoseconds now.toNanosecondsSinceUnixEpoch.val.toNat "delay-table"
    draw := fun page => return page.html
    decode := Toml.decode
    lookup := fun name => (values.lookup name).getD ""
    terminal := ← errors.isTty
    scale := ⟨Float.exp, Float.log⟩ }

end StepTone.Command

def main (arguments : List String) : IO UInt32 := do
  StepTone.Command.run (← StepTone.Command.systemSurroundings) arguments
