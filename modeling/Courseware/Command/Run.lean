import Courseware.Command.Environment
import Courseware.Command.Request
import Courseware.Package.Problem
import Courseware.Package.Registry

/-!
Carrying out what a command line asks for, in any environment. A command has a report: lines for the
user, and why it failed if it did.
-/

namespace Courseware.Command

inductive Notice
  | format (format : Format)
  | wrote (path : String)
  | counts (files bytes milliseconds : Nat)
  | warning (text : String)
  | valid (archive : String) (format : Format)
  | problem (problem : Package.Problem)
  | version
  | usage (line : String)

/-- Why a command failed. -/
inductive CommandFault
  | unknownFormat (name : String)
  | file (path : String) (fault : FileFault)
  /-- A file that should be text is not. -/
  | notText (path : String)
  /-- A file that should be a JSON document of some kind is not. -/
  | document (path : String) (fault : Json.Fault)
  | exporting (code : String) (cause : Failure)
  | package (cause : Failure)
  | problems (count : Nat)
  deriving DecidableEq, Repr

/-- The report of a command. -/
structure Report where
  notices : List Notice
  fault : Option CommandFault := none

/-- A text filled up with spaces. -/
def padded (width : Nat) (s : String) : String :=
  s ++ String.ofList (List.replicate (width - s.length) ' ')

def Notice.text : Notice → String
  | format f =>
    padded 10 f.id ++ " " ++ padded 26 f.displayName ++ " " ++ f.mimeType ++ " (." ++
      f.extension ++ ")"
  | wrote path => "Wrote " ++ path
  | counts files bytes milliseconds =>
    "  " ++ toString files ++ " files, " ++ toString bytes ++ " bytes, " ++
      toString milliseconds ++ " ms"
  | warning text => "  warning: " ++ text
  | valid archive f => archive ++ ": valid " ++ f.id ++ " package"
  | problem p => "  " ++ p.message
  | version => generator
  | usage line => line

def CommandFault.message : CommandFault → String
  | unknownFormat name => "unknown format: " ++ name
  | file path fault => path ++ ": " ++ fault.message
  | notText path => path ++ ": stream did not contain valid UTF-8"
  | document path fault => path ++ ": " ++ fault.message
  | exporting code cause => "[" ++ code ++ "] " ++ cause.message
  | package cause => cause.message
  | problems count => toString count ++ " problem(s) found"

def usage : List String := [
  "Usage: coursepack [--quiet] <COMMAND>",
  "",
  "Commands:",
  "  export <COURSE> --format <FORMAT> [--settings <FILE>] [--output <PATH>]",
  "  formats",
  "  verify <ARCHIVE> --format <FORMAT>"]

variable {m : Type → Type} [Monad m]

def readDocument {α : Type} (env : Environment m) (decoder : Json.Decoder α) (path : String) :
    ExceptT CommandFault m α := do
  match ← env.read path with
  | .error fault => throw (.file path fault)
  | .ok bytes =>
    match Text.ofUtf8? bytes with
    | none => throw (.notText path)
    | some text =>
      match decoder.ofText text with
      | .ok a => return a
      | .error fault => throw (.document path fault)

def pathIn (directory name : String) : String :=
  if directory.toList.getLast? = some '/' then directory ++ name else directory ++ "/" ++ name

/-- Where a package goes: into the file that is asked for, or under its own name into the directory that
is asked for or into the current one. -/
def target (env : Environment m) (output : Option String) (filename : String) : m String :=
  match output with
  | none => return filename
  | some path => do
    if ← env.isDirectory path then return pathIn path filename else return path

def exportFile (env : Environment m) (course format : String) (settings output : Option String) :
    ExceptT CommandFault m (List Notice) := do
  match Registry.standard.resolve? format with
  | none => throw (.unknownFormat format)
  | some exporter =>
    let course ← readDocument env Course.decoder course
    let settings ←
      match settings with
      | some path => readDocument env Settings.decoder path
      | none => pure {}
    let made ← env.now
    let start ← env.milliseconds
    match exporter.exportCourse ⟨course, settings, made⟩ with
    | .failure cause code _ => throw (.exporting code cause)
    | .success package =>
      let stop ← env.milliseconds
      let path ← ExceptT.lift (target env output package.filename)
      match ← env.write path package.archive with
      | .error fault => throw (.file path fault)
      | .ok () =>
        let stats := package.stats
        return .wrote path :: .counts stats.totalItems stats.totalSize (stop - start) ::
          stats.warnings.map .warning

/-- Says what is wrong with the archive in a file. -/
def verifyFile (env : Environment m) (archive format : String) : ExceptT CommandFault m Report := do
  match Format.ofName format with
  | .error cause => throw (.package cause)
  | .ok f =>
    match ← env.read archive with
    | .error fault => throw (.file archive fault)
    | .ok bytes =>
      match Package.verify bytes f with
      | .error cause => throw (.package cause)
      | .ok [] => return ⟨[.valid archive f], none⟩
      | .ok problems => return ⟨problems.map .problem, some (.problems problems.length)⟩

/-- The report of a command that may fail before it has anything to say. -/
def reportOf (command : ExceptT CommandFault m Report) : m Report := do
  match ← command.run with
  | .ok report => return report
  | .error fault => return ⟨[], some fault⟩

def run (env : Environment m) : Request → m Report
  | .exportCourse course format settings output =>
    reportOf do return ⟨← exportFile env course format settings output, none⟩
  | .listFormats => return ⟨Registry.standard.formats.map .format, none⟩
  | .verifyArchive archive format => reportOf (verifyFile env archive format)
  | .showHelp => return ⟨usage.map .usage, none⟩
  | .showVersion => return ⟨[.version], none⟩

end Courseware.Command
