/-
Configs: the settings of a run.

* `Config`: the settings with their defaults.
* `Config.ofDatum?`, `Config.validate`: the reader, and what a config must keep.
* `Config.ofYaml`: the config of a YAML text.
* `Config.load`, `Config.resolve`: the config of a file, and that of a run.
-/
import Directives.Draft.Basic
import Directives.Failure
import Directives.Text.Blank
import Directives.Yaml.Shape

namespace Directives

open Datum

/-- The settings of a run. -/
structure Config where
  policy : CollisionPolicy := .error
  /-- Dangling references fail a run. -/
  failOnUnresolved : Bool := false
  /-- Where documents are written. -/
  outputDirectory : Text := "out"
  /-- The extension of documents, without a dot. -/
  outputExtension : Text := "md"
  /-- Which documents are scanned. -/
  scanGlobs : List Text := ["**/*.md", "**/*.txt"]
  /-- Where events are logged. -/
  eventsLog : Option Text := none
  deriving Repr, DecidableEq

/-- The policy of a word. -/
def CollisionPolicy.ofDatum? (d : Datum) : Option CollisionPolicy := do
  let word ← choice? (all.map CollisionPolicy.word) d
  all.find? (·.word == word)

namespace Config

/-- The names of the settings. -/
def fields : List Text :=
  ["collision_policy", "fail_on_unresolved", "output_dir", "output_extension", "scan_globs",
   "events_log"]

/-- Reads a config from a map, or from a list of its settings in order. Settings
that are missing have their defaults, and what is no setting is passed over. -/
def ofDatum? (d : Datum) : Option Config := do
  if isArguments fields d then
    return { policy := ← orElse? fields "collision_policy" CollisionPolicy.ofDatum? .error d,
             failOnUnresolved := ← orElse? fields "fail_on_unresolved" bool? false d,
             outputDirectory := ← orElse? fields "output_dir" text? "out" d,
             outputExtension := ← orElse? fields "output_extension" text? "md" d,
             scanGlobs := ← orElse? fields "scan_globs" (listOf? text?) ["**/*.md", "**/*.txt"] d,
             eventsLog := ← orElse? fields "events_log" (nullOr? text?) none d }
  else none

/-- What a YAML text is expected to hold. -/
def shape : Yaml.Shape :=
  .record
    [("collision_policy", .word), ("fail_on_unresolved", .flag), ("output_dir", .text),
     ("output_extension", .text), ("scan_globs", .list .text), ("events_log", .optionalText)]

/-- The first pattern that is none. -/
def badGlob? (patterns : List Text) : Option Glob.Fault :=
  patterns.findSome? fun pattern =>
    match Glob.parse pattern with
    | .ok _ => none
    | .error fault => some fault

/-- The config, if its directory is no blank text, its extension is not empty and
has no dot in front, and its patterns are patterns. -/
def validate (c : Config) : Except Failure Config :=
  if c.outputDirectory.isBlankText then .error (.invalidConfig .emptyOutputDirectory)
  else if c.outputExtension.isEmpty then .error (.invalidConfig .emptyExtension)
  else if c.outputExtension.head? = some '.' then
    .error (.invalidConfig (.dottedExtension c.outputExtension))
  else
    match badGlob? c.scanGlobs with
    | some fault => .error (.invalidConfig (.badGlob fault))
    | none => .ok c

/-- The config of a YAML text. A text of blanks sets nothing. -/
def ofYaml (text : Text) : Except Failure Config :=
  if text.isBlankText then .ok {}
  else
    match (do ofDatum? (← Yaml.datum? shape text) : Option Config) with
    | none => .error .malformedConfig
    | some config => config.validate

/-- The config in a file. -/
def load (tree : FileTree) (file : Path) : Except Failure Config :=
  match tree.readText file with
  | .error fault => .error (.unreadableConfig file fault)
  | .ok content => ofYaml content

/-- The name of the file that holds the config of a directory. -/
def fileName : Path := "edict.yaml"

/-- The config of a run in a directory: that of the file asked for, which must be
there, or else that of the directory, or else the default. -/
def resolve (tree : FileTree) (asked : Option Path) (directory : Path) : Except Failure Config :=
  match asked with
  | some file => load tree file
  | none =>
      let file := Path.join directory fileName
      if tree.isFile file then load tree file else .ok {}

end Config

end Directives
