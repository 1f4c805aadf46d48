/-
Parameters of a command line.

Arguments are read from left to right. An option takes its value from behind an
equals sign, from the rest of its short form, or from the next argument; after
two hyphens every argument is a value. What an option got is settled when the
next one comes, and faults show in that order.

* `Usage`: why arguments are not accepted, or what they ask for instead.
* `Parameter`, `Level`: an option or a value, and what one level may have.
* `Reading`: arguments while they are read.
* `Level.read`: reads arguments up to the name of a subcommand or to the end.
-/
import Directives.Text.Basic

namespace Directives.CommandLine

/-- Why arguments are not accepted, or what they ask for instead. -/
inductive Usage
  | displayHelp
  | displayVersion
  | helpOnMissingSubcommand
  | missingSubcommand
  | invalidSubcommand
  | missingRequiredArgument
  | unknownArgument
  | valueValidation
  | invalidValue
  | argumentConflict
  | tooManyValues
  deriving Repr, DecidableEq

/-- The exit code that goes with it: help and version are no faults. -/
def Usage.exitCode : Usage → Nat
  | displayHelp => 0
  | displayVersion => 0
  | _ => 2

/-- How often a parameter may be given, and whether it takes a value. -/
inductive Arity
  /-- Once, without a value. -/
  | flag
  /-- Once, with a value. -/
  | one
  /-- Any number of times, with a value each time. -/
  | many
  /-- It asks for the help text. -/
  | help
  /-- It asks for the version. -/
  | version
  deriving Repr, DecidableEq

/-- What a value must be. -/
inductive ValueKind
  | text
  /-- A path is not empty. -/
  | path
  /-- A number has digits only, perhaps a plus sign, and fits 64 bits. -/
  | number
  deriving Repr, DecidableEq

/-- An option, or a value that is told by its place. -/
structure Parameter where
  name : Text
  long : Option Text := none
  short : Option Char := none
  arity : Arity
  kind : ValueKind := .text
  /-- A value with this character is several values. -/
  delimiter : Option Char := none
  required : Bool := false
  deriving Repr, DecidableEq

namespace Parameter

/-- The parameter takes a value. -/
def takesValue (p : Parameter) : Bool := p.arity == .one || p.arity == .many

/-- The parameter may be given more than once. -/
def repeats (p : Parameter) : Bool := p.arity == .many

/-- The parts of a value between delimiters. -/
def splitAt (delimiter : Char) : Text → List Text
  | [] => [[]]
  | c :: rest =>
      if c = delimiter then [] :: splitAt delimiter rest
      else
        match splitAt delimiter rest with
        | [] => [[c]]
        | part :: parts => (c :: part) :: parts

/-- The values that are given by one. -/
def split (p : Parameter) (value : Text) : List Text :=
  match p.delimiter with
  | none => [value]
  | some delimiter => splitAt delimiter value

end Parameter

/-- The number of a value. -/
def numberOf? (value : Text) : Option Nat := do
  let n ← Text.toNat? 10 (if value.head? = some '+' then value.drop 1 else value)
  if n < UInt64.size then some n else none

/-- A value is of the kind asked for. -/
def ValueKind.check (kind : ValueKind) (value : Text) : Except Usage Unit :=
  match kind with
  | .text => .ok ()
  | .path => if value.isEmpty then .error .invalidValue else .ok ()
  | .number => if (numberOf? value).isSome then .ok () else .error .valueValidation

/-- What one level of a command line may have. -/
structure Level where
  options : List Parameter
  /-- The values that are told by their place. The last one may repeat. -/
  places : List Parameter := []
  subcommands : List Text := []

/-- Arguments while they are read. -/
structure Reading where
  /-- The values of the parameters that are settled, in order. -/
  given : List (Text × List Text) := []
  /-- A parameter that is not settled yet, with the values it got. -/
  pending : Option (Parameter × List Text) := none
  /-- The next argument is the value of the pending option. -/
  awaiting : Bool := false
  /-- The values that are still to come by their place. -/
  places : List Parameter

namespace Reading

/-- The parameter was given. -/
def has (r : Reading) (p : Parameter) : Bool := r.given.any (·.1 == p.name)

/-- The values of a parameter. -/
def values (r : Reading) (name : Text) : List Text :=
  (r.given.filter (·.1 == name)).flatMap Prod.snd

/-- Settles one parameter with its values. -/
def settleOne (r : Reading) (p : Parameter) (values : List Text) : Except Usage Reading :=
  if p.arity = .help then .error .displayHelp
  else if p.arity = .version then .error .displayVersion
  else if p.takesValue && values.isEmpty then .error .invalidValue
  else if !p.repeats && r.has p then .error .argumentConflict
  else do
    let values := values.flatMap p.split
    values.forM p.kind.check
    return { r with given := r.given ++ [(p.name, values)] }

/-- Settles the pending parameter. -/
def settle (r : Reading) : Except Usage Reading :=
  match r.pending with
  | none => .ok { r with awaiting := false }
  | some (p, values) => settleOne { r with pending := none, awaiting := false } p values

/-- Gives a parameter, with its value or without. One that takes a value and has
none waits for it. -/
def give (r : Reading) (p : Parameter) (value : Option Text) : Except Usage Reading := do
  let r ← r.settle
  match value with
  | some value => r.settleOne p [value]
  | none =>
      if p.takesValue then return { r with pending := some (p, []), awaiting := true }
      else r.settleOne p []

/-- The value of an option that waits for it. -/
def addValue (r : Reading) (value : Text) : Reading :=
  { r with pending := r.pending.map fun (p, values) => (p, values ++ [value]), awaiting := false }

/-- A value that is told by its place. -/
def addPlaced (r : Reading) (value : Text) : Except Usage Reading :=
  match r.places with
  | [] => .error .unknownArgument
  | p :: rest =>
      if p.repeats && r.pending.any (·.1 == p) then .ok (r.addValue value)
      else do
        let r ← r.settle
        return { r with pending := some (p, [value]), places := if p.repeats then p :: rest else rest }

end Reading

namespace Level

/-- The option of a long name. -/
def long? (level : Level) (name : Text) : Option Parameter :=
  level.options.find? (·.long == some name)

/-- The option of a letter. -/
def short? (level : Level) (letter : Char) : Option Parameter :=
  level.options.find? (·.short == some letter)

/-- Reads an argument behind its two hyphens. -/
def readLong (level : Level) (r : Reading) (argument : Text) : Except Usage Reading :=
  let name := argument.takeWhile (· != '=')
  let value := if name.length < argument.length then some (argument.drop (name.length + 1)) else none
  match level.long? name with
  | none => .error .unknownArgument
  | some p => if !p.takesValue && value.isSome then .error .tooManyValues else r.give p value

/-- Reads an argument behind its one hyphen, letter by letter. An option that
takes a value takes what is left. -/
def readShort (level : Level) (r : Reading) : Text → Except Usage Reading
  | [] => .ok r
  | letter :: rest =>
      match level.short? letter with
      | none => .error .unknownArgument
      | some p =>
          if p.takesValue then
            match rest with
            | [] => r.give p none
            | '=' :: value => r.give p (some value)
            | value => r.give p (some value)
          else do level.readShort (← r.give p none) rest

/-- The fault of an argument that has no place here. -/
def stray (level : Level) (onlyValues : Bool) (argument : Text) : Usage :=
  if level.subcommands.isEmpty || (onlyValues && level.subcommands.contains argument) then .unknownArgument
  else .invalidSubcommand

/-- Reads arguments up to the name of a subcommand, or to the end. The result has
that name and the arguments behind it. After two hyphens, `onlyValues` holds. -/
def read (level : Level) (r : Reading) (onlyValues : Bool) :
    List Text → Except Usage (Reading × Option (Text × List Text))
  | [] => .ok (r, none)
  | argument :: rest =>
      let place : Except Usage (Reading × Option (Text × List Text)) :=
        if r.places.isEmpty then .error (level.stray onlyValues argument)
        else do level.read (← r.addPlaced argument) onlyValues rest
      if onlyValues then place
      else if !r.awaiting && level.subcommands.contains argument then .ok (r, some (argument, rest))
      else
        match argument with
        | ['-', '-'] => level.read { r with awaiting := false } true rest
        | '-' :: '-' :: long => do level.read (← level.readLong r long) false rest
        | '-' :: c :: short => do level.read (← level.readShort r (c :: short)) false rest
        | argument => if r.awaiting then level.read (r.addValue argument) false rest else place

/-- The parameters that must be given were given. -/
def checkRequired (level : Level) (r : Reading) : Except Usage Unit :=
  if level.places.all fun p => !p.required || r.has p then .ok () else .error .missingRequiredArgument

end Level

end Directives.CommandLine
