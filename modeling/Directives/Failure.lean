/-
Failures: why an operation gives no result.

* `Failure`: the causes.
* `Failure.Kind`: whose fault it is, the user's, a definition's, or that of
  dangling references; it decides the exit code.
* `Failure.message`, `Failure.exitCode`: the wording and the code.
-/
import Directives.Diagnostic
import Directives.FileTree.Basic
import Directives.Glob.Basic

namespace Directives

/-- What a config must not say. -/
inductive ConfigFault
  | emptyOutputDirectory
  | emptyExtension
  | dottedExtension (extension : Text)
  | badGlob (fault : Glob.Fault)
  deriving Repr, DecidableEq

/-- A text without the dots in front. -/
def Text.dropDots (text : Text) : Text := text.dropWhile (· == '.')

/-- The sentence about what a config must not say. -/
def ConfigFault.message : ConfigFault → Text
  | emptyOutputDirectory => "output_dir must be non-empty"
  | emptyExtension => "output_extension must be non-empty"
  | dottedExtension extension =>
      ("output_extension must not have a leading dot (found '" : Text) ++ extension
        ++ "'). Use '" ++ extension.dropDots ++ "' instead."
  | badGlob fault =>
      ("invalid scan glob '" : Text) ++ fault.pattern ++ "': " ++ fault.message

/-- Why an operation gives no result. -/
inductive Failure
  /-- A definition has no command of the name. -/
  | unknownCommand (name : Text) (known : List Text)
  /-- The definition of a file has no command of the name. -/
  | commandNotInFile (name : Text) (file : Path)
  | unreadableDefinition (file : Path) (fault : FileTree.Fault)
  /-- A text, perhaps that of a file, is no definition. -/
  | malformedDefinition (file : Option Path)
  | unreadableConfig (file : Path) (fault : FileTree.Fault)
  | malformedConfig
  | invalidConfig (fault : ConfigFault)
  | badScanGlob (fault : Glob.Fault)
  /-- The directory to be scanned is not there. -/
  | unreadableRoot (root : Path) (fault : FileTree.Fault)
  | unreadableDocument (file : Path) (fault : FileTree.Fault)
  | noEventDirectory (directory : Path) (fault : FileTree.Fault)
  | unopenedEvents (file : Path) (fault : FileTree.Fault)
  | unreadableEvents (file : Path) (fault : FileTree.Fault)
  | malformedEvent (line : Nat) (file : Path)
  | noEventLog
  | noOutputDirectory (directory : Path) (fault : FileTree.Fault)
  | unwritten (file : Path) (fault : FileTree.Fault)
  /-- A command has errors. -/
  | defective (name : Text) (errors : List Diagnostic)
  /-- Some of the commands of a run have errors. -/
  | commandsFailed (failed : List Text) (count : Nat)
  | errorsFound (count : Nat)
  | unresolvedIn (commands : List Text)
  | referencesFound (count : Nat)
  | markersFound (count documents : Nat)
  deriving Repr, DecidableEq

namespace Failure

/-- Whose fault a failure is. -/
inductive Kind
  | user
  | definition
  | lint
  deriving Repr, DecidableEq

/-- The kind of a failure. -/
def kind : Failure → Kind
  | defective _ _ => .definition
  | commandsFailed _ _ => .definition
  | errorsFound _ => .definition
  | unresolvedIn _ => .lint
  | referencesFound _ => .lint
  | markersFound _ _ => .lint
  | _ => .user

/-- The exit code of a kind. -/
def Kind.exitCode : Kind → Nat
  | user => 1
  | definition => 2
  | lint => 3

/-- What the message of every failure of a kind starts with. -/
def Kind.heading : Kind → Text
  | user => []
  | definition => "Definition failed: "
  | lint => "Lint failed: "

/-- The exit code of a failure. -/
def exitCode (f : Failure) : Nat := f.kind.exitCode

/-- A failure of the file system at a path. -/
def atPath (what : Text) (path : Path) (cause : Text) : Text :=
  what ++ (" '" : Text) ++ path ++ "': " ++ cause

/-- The sentence about a failure, without the heading of its kind. -/
def sentence : Failure → Text
  | unknownCommand name known =>
      ("command '" : Text) ++ name ++ "' not found. Known commands: "
        ++ if known.isEmpty then ("(none)" : Text) else Text.join ", " known
  | commandNotInFile name file => ("command '" : Text) ++ name ++ "' not found in '" ++ file ++ ['\'']
  | unreadableDefinition file fault => atPath "failed to read definition file" file fault.message
  | malformedDefinition file =>
      (file.map (· ++ (": " : Text))).getD [] ++ "failed to parse definition YAML"
  | unreadableConfig file fault => atPath "failed to read config file" file fault.message
  | malformedConfig => "failed to parse config YAML"
  | invalidConfig fault => ("config validation failed: " : Text) ++ fault.message
  | badScanGlob fault => ("invalid scan glob: " : Text) ++ fault.message
  | unreadableRoot root fault =>
      atPath "failed to read" root (("IO error for operation on " : Text) ++ root ++ ": " ++ fault.message)
  | unreadableDocument file fault => atPath "failed to read" file fault.message
  | noEventDirectory directory fault =>
      atPath "failed to create events directory" directory fault.message
  | unopenedEvents file fault => atPath "failed to open events file" file fault.message
  | unreadableEvents file fault => atPath "failed to read events file" file fault.message
  | malformedEvent line file =>
      ("malformed event on line " : Text) ++ Text.ofNat line ++ " of '" ++ file ++ ['\'']
  | noEventLog => "no audit log configured (set `events_log` in edict.yaml)"
  | noOutputDirectory directory fault =>
      atPath "failed to create output directory" directory fault.message
  | unwritten file fault => atPath "failed to write" file fault.message
  | defective name errors =>
      '\'' :: name ++ "' has " ++ Text.ofNat errors.length ++ " error(s):\n  "
        ++ Text.join "\n  " (errors.map Diagnostic.line)
  | commandsFailed failed count =>
      Text.ofNat failed.length ++ " of " ++ Text.ofNat count ++ " command(s) failed to compile: "
        ++ Text.join ", " failed
  | errorsFound count => Text.ofNat count ++ " error(s) found"
  | unresolvedIn commands => ("unresolved store references in: " : Text) ++ Text.join ", " commands
  | referencesFound count => Text.ofNat count ++ " unresolved reference(s) found"
  | markersFound count documents =>
      Text.ofNat count ++ " unresolved token(s) in " ++ Text.ofNat documents ++ " document(s)"

/-- The message of a failure. -/
def message (f : Failure) : Text := f.kind.heading ++ f.sentence

end Failure

end Directives
