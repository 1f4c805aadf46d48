/-
Rendering: documents of the commands of a file.

A command that does not compile does not stop the others; the run fails at its
end. Documents are printed, or written to a directory under the names of their
commands.

* `RenderTask.stem`: the file name of a document, without its extension.
* `RenderTask.Outcome`: what became of one command.
* `RenderTask.renderOne`, `RenderTask.renderAll`: one command, and all in order.
* `RenderTask.conclude`: success or failure of the run, by the outcomes.
* `RenderTask.run`: the whole task.
-/
import Directives.Definition.Load
import Directives.Document.Basic
import Directives.Session.Task
import Directives.Session.World

namespace Directives.RenderTask

/-- The character may stand in the name of a file. -/
def isStemChar (c : Char) : Bool :=
  Text.isLetter c || Text.isDigit c || c == '.' || c == '_' || c == '-'

/-- The name of a command as the name of a file: a hyphen for every character that
may not stand in one. -/
def stem (command : Text) : Text := command.map fun c => if isStemChar c then c else '-'

/-- The file for the document of a command in a directory. -/
def documentPath (directory : Path) (extension command : Text) : Path :=
  Path.join directory (stem command ++ '.' :: extension)

/-- Where the documents are written. -/
def outputDirectory (task : RenderTask) (setting : Setting) : Path :=
  setting.path (task.directory.getD setting.config.outputDirectory)

/-- What became of a command. -/
inductive Outcome
  /-- It has errors. -/
  | failed
  /-- Its document has dangling references. -/
  | unresolved
  /-- Its document has none. -/
  | clean
  deriving Repr, DecidableEq

/-- The tree with the document of a command in a directory, which is made if need
be. -/
def writeDocument (directory path : Path) (text : Text) (tree : FileTree) :
    FileTree × Option Failure :=
  match tree.createDirectories directory with
  | (tree, some fault) => (tree, some (.noOutputDirectory directory fault))
  | (tree, none) =>
      match tree.write path text with
      | .error fault => (tree, some (.unwritten path fault))
      | .ok tree => (tree, none)

/-- Prints or writes the document of a command. -/
def deliver (task : RenderTask) (setting : Setting) (command : Text) (text : Text) :
    Session Unit := do
  if task.print then
    Session.print text
  else
    let directory := task.outputDirectory setting
    let path := documentPath directory setting.config.outputExtension command
    Session.change (writeDocument directory path text)
    Session.print (("Rendered " : Text) ++ command ++ " -> " ++ path ++ ['\n'])

/-- What is logged about a document. -/
def details (document : Document) : Json :=
  Json.fields
    [("rules".toList, .nat document.ruleCount),
     ("guidelines".toList, .nat document.guidelineCount),
     ("diagnostics".toList, .nat document.diagnostics.length)]

/-- Compiles one command and delivers its document. -/
def renderOne (task : RenderTask) (setting : Setting) (d : Definition) (name : Text)
    (command : Command) : Session Outcome :=
  match (d.draft name command setting.config.policy).compile with
  | .error failure => do
      Session.warn (failure.message ++ ['\n'])
      return .failed
  | .ok document => do
      Session.warn
        (document.diagnostics.flatMap fun diagnostic =>
          name ++ (": " : Text) ++ diagnostic.line ++ ['\n'])
      task.deliver setting name document.text
      Session.logEvent setting .compile name (details document)
      return if document.unresolvedCount = 0 then .clean else .unresolved

/-- Compiles commands in order. -/
def renderAll (task : RenderTask) (setting : Setting) (d : Definition) :
    List (Text × Command) → Session (List (Text × Outcome))
  | [] => return []
  | (name, command) :: rest => do
      let outcome ← task.renderOne setting d name command
      return (name, outcome) :: (← task.renderAll setting d rest)

/-- The names of the commands with an outcome. -/
def withOutcome (outcome : Outcome) (results : List (Text × Outcome)) : List Text :=
  (results.filter (·.2 == outcome)).map Prod.fst

/-- The run fails if a command failed. If the config forbids dangling references,
it fails if a document has some. -/
def conclude (config : Config) (results : List (Text × Outcome)) : Except Failure Unit :=
  let failed := withOutcome .failed results
  let unresolved := withOutcome .unresolved results
  if !failed.isEmpty then .error (.commandsFailed failed results.length)
  else if config.failOnUnresolved && !unresolved.isEmpty then .error (.unresolvedIn unresolved)
  else .ok ()

/-- The commands that are asked for. -/
def commands (task : RenderTask) (d : Definition) : Except Failure (List (Text × Command)) :=
  match task.command with
  | none => .ok d.commands
  | some name =>
      match d.command? name with
      | some command => .ok [(name, command)]
      | none => .error (.commandNotInFile name task.file)

/-- Compiles the commands of a file and delivers their documents. -/
def run (task : RenderTask) (setting : Setting) : Session Unit := do
  let d ← Session.ofExcept (Definition.load (← Session.tree) (setting.path task.file))
  let commands ← Session.ofExcept (task.commands d)
  if commands.isEmpty then
    Session.print (("No commands defined in '" : Text) ++ task.file ++ "'.\n")
  else
    let results ← task.renderAll setting d commands
    Session.ofExcept (conclude setting.config results)

end Directives.RenderTask
