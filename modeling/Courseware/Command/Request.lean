/-!
What a command line asks for. Options may stand before and after the other arguments, in a long form
(`--format xapi`, `--format=xapi`) and a short one (`-f xapi`, `-fxapi`, `-f=xapi`); short forms may stand
together. After `--` no argument is an option.
-/

namespace Courseware.Command

/-- What a command line asks for. -/
inductive Request
  /-- To export the course in a file. -/
  | exportCourse (course format : String) (settings output : Option String)
  | listFormats
  /-- To say what is wrong with an archive. -/
  | verifyArchive (archive format : String)
  | showHelp
  | showVersion
  deriving DecidableEq, Repr

/-- Why a command line is not read to its end. -/
inductive Stop
  /-- It cannot be understood. -/
  | misuse
  | help
  | version
  deriving DecidableEq, Repr

/-! ## Options -/

/-- What an option takes. -/
inductive OptionKind
  | nothing
  | text
  /-- The path of a file, which is never empty. -/
  | path
  deriving DecidableEq, Repr

structure OptionForm where
  long : String
  short : Char
  kind : OptionKind

/-- The option that keeps a command quiet, which every command has. -/
def quietOption : OptionForm := ⟨"quiet", 'q', .nothing⟩

def helpOption : OptionForm := ⟨"help", 'h', .nothing⟩

def versionOption : OptionForm := ⟨"version", 'V', .nothing⟩

def formatOption : OptionForm := ⟨"format", 'f', .text⟩

def settingsOption : OptionForm := ⟨"settings", 's', .path⟩

/-- The option that says where a package is put. -/
def outputOption : OptionForm := ⟨"output", 'o', .path⟩

/-- What the arguments of a command may be: some options and a number of paths. -/
structure CommandForm where
  options : List OptionForm
  paths : Nat

/-- What has been read of a command line. -/
structure Given where
  /-- The options by their long names, each with its value. -/
  options : List (String × String) := []
  /-- The arguments that are no options, in order. Each is a path. -/
  paths : List String := []

namespace Given

def value? (g : Given) (o : OptionForm) : Option String :=
  (g.options.find? fun e => e.1 == o.long).map Prod.snd

/-- Adds an option with its value, unless it has been given before. -/
def addOption (g : Given) (o : OptionForm) (value : String) : Except Stop Given :=
  if o.long == helpOption.long then .error .help
  else if o.long == versionOption.long then .error .version
  else if (g.value? o).isSome || (o.kind == .path && value.isEmpty) then .error .misuse
  else .ok { g with options := (o.long, value) :: g.options }

/-- Adds a path, of which there may be at most `limit`. -/
def addPath (limit : Nat) (g : Given) (path : String) : Except Stop Given :=
  if limit ≤ g.paths.length || path.isEmpty then .error .misuse
  else .ok { g with paths := g.paths ++ [path] }

end Given

/-- Whether an argument is no option, also where an option needs a value. A single hyphen is none. -/
def isOperand (argument : String) : Bool :=
  match argument.toList with
  | '-' :: _ :: _ => false
  | _ => true

/-- Reads short options that stand together. When the last one still needs a value, it is returned. -/
def readShort (forms : List OptionForm) (g : Given) :
    List Char → Except Stop (Given × Option OptionForm)
  | [] => .ok (g, none)
  | c :: cs =>
    match forms.find? fun o => o.short == c with
    | none => .error .misuse
    | some o =>
      match o.kind, cs with
      | .nothing, _ => do
        let g ← g.addOption o ""
        readShort forms g cs
      | _, [] => .ok (g, some o)
      | _, '=' :: value => (g.addOption o (String.ofList value)).map (·, none)
      | _, value => (g.addOption o (String.ofList value)).map (·, none)

/-- Reads a long option without its hyphens. When it still needs a value, it is returned. -/
def readLong (forms : List OptionForm) (g : Given) (written : List Char) :
    Except Stop (Given × Option OptionForm) :=
  let name := String.ofList (written.takeWhile (· != '='))
  match forms.find? fun o => o.long == name, written.dropWhile (· != '=') with
  | none, _ => .error .misuse
  | some o, [] =>
    if o.kind == .nothing then (g.addOption o "").map (·, none) else .ok (g, some o)
  | some o, _ :: value =>
    if o.kind == .nothing then .error .misuse
    else (g.addOption o (String.ofList value)).map (·, none)

/-- Reads arguments after those that have been read, where an option may wait for its value. The first
argument that stops the reading counts. -/
def readArguments (form : CommandForm) (waiting : Option OptionForm) (g : Given) :
    List String → Except Stop Given
  | [] => if waiting.isSome then .error .misuse else .ok g
  | a :: rest =>
    match waiting, a.toList with
    | some o, _ =>
      if isOperand a then do
        let g ← g.addOption o a
        readArguments form none g rest
      else .error .misuse
    | none, ['-', '-'] => rest.foldlM (Given.addPath form.paths) g
    | none, '-' :: '-' :: written => do
      let (g, waiting) ← readLong form.options g written
      readArguments form waiting g rest
    | none, '-' :: c :: cs => do
      let (g, waiting) ← readShort form.options g (c :: cs)
      readArguments form waiting g rest
    | none, _ => do
      let g ← g.addPath form.paths a
      readArguments form none g rest

/-! ## Requests -/

def commandNames : List String := ["export", "formats", "verify", "help"]

/-- Reads the arguments of a command that takes some paths, and some options besides those that every
command has. -/
def readCommand (options : List OptionForm) (paths : Nat) (arguments : List String) :
    Except Stop Given :=
  readArguments ⟨options ++ [quietOption, helpOption], paths⟩ none {} arguments

def readExport (arguments : List String) : Except Stop Request := do
  let g ← readCommand [formatOption, settingsOption, outputOption] 1 arguments
  match g.paths, g.value? formatOption with
  | [course], some format =>
    .ok (.exportCourse course format (g.value? settingsOption) (g.value? outputOption))
  | _, _ => .error .misuse

def readFormats (arguments : List String) : Except Stop Request := do
  let _ ← readCommand [] 0 arguments
  return .listFormats

/-- Reads the arguments of the command that looks for problems in an archive. -/
def readVerify (arguments : List String) : Except Stop Request := do
  let g ← readCommand [formatOption] 1 arguments
  match g.paths, g.value? formatOption with
  | [archive], some format => .ok (.verifyArchive archive format)
  | _, _ => .error .misuse

def readHelp : List String → Except Stop Request
  | [] => .ok .showHelp
  | [name] => if commandNames.contains name then .ok .showHelp else .error .misuse
  | _ => .error .misuse

/-- Reads the options before a command and then the command with its arguments. -/
def readRequest (g : Given) : List String → Except Stop Request
  | [] => .error .misuse
  | a :: rest =>
    match a with
    | "export" => readExport rest
    | "formats" => readFormats rest
    | "verify" => readVerify rest
    | "help" => readHelp rest
    | _ =>
      if isOperand a then .error .misuse
      else do
        let forms := [quietOption, helpOption, versionOption]
        let written := a.toList.drop 1
        let (g, _) ← match written with
          | '-' :: name => readLong forms g name
          | _ => readShort forms g written
        readRequest g rest

/-- What a command line asks for; none if it cannot be understood. -/
def Request.ofArguments? (arguments : List String) : Option Request :=
  match readRequest {} arguments with
  | .ok r => some r
  | .error .help => some .showHelp
  | .error .version => some .showVersion
  | .error .misuse => none

end Courseware.Command
