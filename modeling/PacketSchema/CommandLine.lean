import PacketSchema.Compilation.Files
import PacketSchema.Style.Check

/-! The command line: schema texts from files, or from standard input where no file is named, are
checked for style and compiled. All findings go to standard output; unreadable and rewritten files
and the totals go to standard error.

    --fix, -f       rewrite the files, or the input to the output, with lines indented by depth
    --human, -H     two lines for each finding
    --no-compile    style only -/

namespace PacketSchema.CommandLine

structure Flags where
  fix : Bool
  human : Bool
  compile : Bool
deriving DecidableEq, Repr

/-- Takes the first argument that is one of the names of a flag. -/
def takeFlag (names args : List String) : Bool × List String :=
  (args.any names.contains, args.eraseP names.contains)

/-- The flags, and the arguments that are left as paths. -/
def parse (args : List String) : Flags × List String :=
  let (fix, args) := takeFlag ["--fix", "-f"] args
  let (human, args) := takeFlag ["--human", "-H"] args
  let (noCompile, args) := takeFlag ["--no-compile"] args
  (⟨fix, human, !noCompile⟩, args)

/-- What one or more checked texts have brought so far. -/
structure Report where
  stdout : String := ""
  stderr : String := ""
  errors : Nat := 0
  warnings : Nat := 0
  unreadable : Bool := false
deriving DecidableEq, Repr

namespace Report

def append (a b : Report) : Report :=
  ⟨a.stdout ++ b.stdout, a.stderr ++ b.stderr, a.errors + b.errors, a.warnings + b.warnings,
    a.unreadable || b.unreadable⟩

instance : Append Report := ⟨append⟩

end Report

def findingText (human : Bool) (name : String) (f : Finding) : String :=
  if human then
    s!"  {name} {f.place.line}:{f.place.column}: {f.message}\n    rule: {f.rule.id}\n"
  else
    s!"{name}:{f.place.line}:{f.place.column}: {f.severity.word}: {f.message} [{f.rule.id}]\n"

def ofFinding (human : Bool) (name : String) (f : Finding) : Report :=
  let stdout := findingText human name f
  match f.severity with
  | .error => { stdout, errors := 1 }
  | .warning => { stdout, warnings := 1 }

def ofFindings (human : Bool) (name : String) (fs : List Finding) : Report :=
  fs.foldl (fun r f => r ++ ofFinding human name f) {}

def ofError (human : Bool) (e : SchemaError) : Report :=
  { stdout := if human then s!"  {e.message}\n" else s!"{e.message}\n", errors := 1 }

def ofCompilation (human : Bool) (name text : String) : Report :=
  match Schema.ofText name text with
  | .ok s => ofFindings human name s.warnings
  | .error e => ofError human e

/-- Checks one text. -/
def check (flags : Flags) (name text : String) : Report :=
  ofFindings flags.human name (Style.findings text) ++
    if flags.compile then ofCompilation flags.human name text else {}

/-- Checks one file, after it has been rewritten if it is to be fixed and is not in order. -/
def checkFile {m : Type → Type} [Monad m] (access : FileAccess m) (flags : Flags)
    (path : String) : m Report := do
  match ← access.readText path with
  | .error cause =>
    return { stderr := s!"{path}: {cause.message}\n", unreadable := true }
  | .ok text =>
    if flags.fix then
      let fixed := Style.fixed text
      if fixed = text then return check flags path text
      else
        access.write path fixed.toUTF8
        return { stderr := s!"{path}: fixed\n" } ++ check flags path fixed
    else return check flags path text

def checkFiles {m : Type → Type} [Monad m] (access : FileAccess m) (flags : Flags) :
    List String → m Report
  | [] => return {}
  | path :: rest => do
    let first ← checkFile access flags path
    return first ++ (← checkFiles access flags rest)

structure Outcome where
  exit : Nat
  stdout : String
  stderr : String
deriving DecidableEq, Repr

/-- The outcome with the totals behind all other messages. -/
def Report.outcome (r : Report) : Outcome :=
  let totals := if r.errors > 0 ∨ r.warnings > 0 then
    s!"lint: {r.errors} error(s), {r.warnings} warning(s)\n" else ""
  ⟨if r.unreadable ∨ r.errors > 0 then 1 else 0, r.stdout, r.stderr ++ totals⟩

/-- What becomes of the bytes of standard input. -/
def runInput (flags : Flags) (input : ByteArray) : Outcome :=
  match decodeText input with
  | .error cause => ⟨1, "", s!"Error: {cause.message}\n"⟩
  | .ok text =>
    if flags.fix then ⟨0, Style.fixed text, ""⟩ else (check flags "<stdin>" text).outcome

def run {m : Type → Type} [Monad m] (access : FileAccess m) (input : m ByteArray)
    (args : List String) : m Outcome := do
  let (flags, paths) := parse args
  if paths.isEmpty then return runInput flags (← input)
  else return (← checkFiles access flags paths).outcome

end PacketSchema.CommandLine
