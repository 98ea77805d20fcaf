import Courseware.Command.Run
import Std.Time.DateTime.Timestamp

/-!
The program: it takes a command line, uses the files and the clock of the machine, and prints the report.
-/

namespace Courseware.Command

def faultOf : IO.Error → FileFault
  | .noFileOrDirectory .. => .absent
  | e@(.inappropriateType _ code _) =>
    if code = 20 then .notDirectory else if code = 21 then .isDirectory else .other (toString e)
  | e@(.resourceExhausted _ code _) =>
    if code = 20 then .notDirectory else if code = 21 then .isDirectory else .other (toString e)
  | e@(.invalidArgument _ code _) => if code = 36 then .nameTooLong else .other (toString e)
  | e => .other (toString e)

/-- The result of an action that may fail. -/
def attempt {α : Type} (action : IO α) : IO (Except FileFault α) := do
  try
    return .ok (← action)
  catch e =>
    return .error (faultOf e)

/-- The moment that the clock shows. -/
def currentInstant : IO Time.Instant := do
  let t ← Std.Time.Timestamp.now
  return ⟨t.toSecondsSinceUnixEpoch.val, false⟩

/-- The files and the clock of the machine. -/
def machine : Environment IO where
  read path := attempt do return (← IO.FS.readBinFile path).data.toList
  write path contents := attempt (IO.FS.writeBinFile path ⟨contents.toArray⟩)
  isDirectory path := do
    try
      let place ← IO.FS.realPath path
      place.isDir
    catch _ =>
      return false
  now := currentInstant
  milliseconds := IO.monoMsNow

end Courseware.Command

open Courseware.Command in
/-- Runs the program and returns its exit code. -/
def main (arguments : List String) : IO UInt32 := do
  match Request.ofArguments? arguments with
  | none =>
    for line in usage do
      IO.eprintln line
    return 2
  | some request =>
    let report ← run machine request
    for notice in report.notices do
      IO.println notice.text
    match report.fault with
    | none => return 0
    | some fault =>
      IO.eprintln ("error: " ++ fault.message)
      return 1
