/-
The command line as a whole.

Arguments name a subcommand, which has arguments of its own, and every level may
name the config. The arguments of the subcommand are judged first; help and
version are answers, not faults.

* `Subcommand`: the names of tasks; `Subcommand.level` is what each may have.
* `CommandLine.parse`: the invocation of arguments.
-/
import Directives.CommandLine.Parameter
import Directives.Session.Task

namespace Directives.CommandLine

/-- The name of a task, or the one that asks for help. -/
inductive Subcommand
  | render
  | lint
  | list
  | scan
  | log
  | help
  deriving Repr, DecidableEq

namespace Subcommand

/-- All subcommands. -/
def all : List Subcommand := [render, lint, list, scan, log, help]

/-- The word for a subcommand. -/
def word : Subcommand → Text
  | render => "render"
  | lint => "lint"
  | list => "list"
  | scan => "scan"
  | log => "log"
  | help => "help"

/-- The subcommand of a word. -/
def ofWord? (word : Text) : Option Subcommand := all.find? (·.word == word)

/-! ### Parameters -/

/-- The config to use. -/
def configFile : Parameter :=
  { name := "config", long := some "config", arity := .one, kind := .path }

/-- What every level may have. -/
def common : List Parameter :=
  [ configFile,
    { name := "help", long := some "help", short := some 'h', arity := .help },
    { name := "version", long := some "version", short := some 'V', arity := .version } ]

/-- The only command that matters. -/
def command : Parameter :=
  { name := "command", long := some "command", short := some 'c', arity := .one }

/-- The directory of documents. -/
def output : Parameter :=
  { name := "out", long := some "out", short := some 'o', arity := .one, kind := .path }

/-- Documents are printed. -/
def print : Parameter := { name := "stdout", long := some "stdout", arity := .flag }

/-- Diagnostics are reported as JSON. -/
def json : Parameter := { name := "json", long := some "json", arity := .flag }

/-- Patterns of documents, with commas between them. -/
def globs : Parameter :=
  { name := "globs", long := some "globs", arity := .many, delimiter := some ',' }

/-- The most events to show. -/
def limit : Parameter :=
  { name := "limit", long := some "limit", short := some 'n', arity := .one, kind := .number }

/-- The definition file. -/
def file : Parameter := { name := "file", arity := .one, kind := .path, required := true }

/-- The definition files. -/
def files : Parameter := { name := "files", arity := .many, kind := .path, required := true }

/-- The directory to scan. -/
def directory : Parameter := { name := "dir", arity := .one, kind := .path, required := true }

/-- What the level of a subcommand may have. -/
def level : Subcommand → Level
  | render => { options := [command, output, print] ++ common, places := [file] }
  | lint => { options := [json] ++ common, places := [files] }
  | list => { options := common, places := [file] }
  | scan => { options := [globs] ++ common, places := [directory] }
  | log => { options := [command, limit] ++ common }
  | help => { options := common }

/-- What the level above the subcommands may have. -/
def top : Level := { options := common, subcommands := all.map word }

/-! ### Tasks -/

/-- The single value of a parameter. -/
def value? (r : Reading) (p : Parameter) : Option Text := (r.values p.name).head?

/-- The single value of a parameter that is required. -/
def value (r : Reading) (p : Parameter) : Text := (value? r p).getD []

/-- The task of a subcommand with its arguments. Help is no task. -/
def task? (s : Subcommand) (r : Reading) : Option Task :=
  match s with
  | render =>
      some <| .render
        { file := value r file, command := value? r command, directory := value? r output,
          print := r.has print }
  | lint => some (.lint { files := r.values files.name, json := r.has json })
  | list => some (.list { file := value r file })
  | scan => some (.scan { directory := value r directory, globs := r.values globs.name })
  | log =>
      some (.log { command := value? r command, limit := (value? r limit).bind numberOf? })
  | help => none

/-- Parameters that exclude each other were both given. -/
def hasConflict (r : Reading) : Bool := r.has print && r.has output

/-- Reads and judges the arguments of a subcommand. -/
def readArguments (s : Subcommand) (arguments : List Text) : Except Usage Reading := do
  let (r, _) ← s.level.read { places := s.level.places } false arguments
  let r ← r.settle
  if hasConflict r then throw .argumentConflict
  s.level.checkRequired r
  return r

/-- The answer to a request for help on subcommands: there is none below another. -/
def helpOn : List Text → Usage
  | [] => .displayHelp
  | [name] => if (ofWord? name).isSome then .displayHelp else .invalidSubcommand
  | _ => .invalidSubcommand

end Subcommand

/-! ### Invocations -/

open Subcommand

/-- The invocation of a subcommand, where `above` are the arguments in front. The
config that is named behind the subcommand counts. -/
def ofSubcommand (above : Reading) (s : Subcommand) (arguments : List Text) :
    Except Usage Invocation := do
  if s = .help then throw (helpOn arguments)
  let r ← s.readArguments arguments
  let above ← above.settle
  match s.task? r with
  | some task => return { config := (value? r configFile).or (value? above configFile), task }
  | none => throw .displayHelp

/-- The answer to arguments without a subcommand. -/
def withoutSubcommand (r : Reading) : Except Usage Invocation := do
  let r ← r.settle
  throw (if r.given.isEmpty then .helpOnMissingSubcommand else .missingSubcommand)

/-- The invocation of arguments. -/
def parse (arguments : List Text) : Except Usage Invocation := do
  match ← top.read { places := [] } false arguments with
  | (above, some (word, rest)) =>
      match ofWord? word with
      | some s => ofSubcommand above s rest
      | none => throw .invalidSubcommand
  | (above, none) => withoutSubcommand above

end Directives.CommandLine
