/-
The built-in libraries.

Each is a program of the same calls a command could make itself. Definition
files reach them by the name `builtin:` followed by the library's own name.

* `Library`: the four libraries; `Library.name` and `Library.ofName?`.
* `Library.program`: the calls of a library.
* `Library.scheme`: what their names start with in an include.
-/
import Directives.Draft.Program
import Directives.Tool

namespace Directives

/-- A built-in library. -/
inductive Library
  | qualityGates
  | errorHandling
  | parallelDispatch
  | baseline
  deriving Repr, DecidableEq

namespace Library

/-- All built-in libraries in the order of listings. -/
def all : List Library := [qualityGates, errorHandling, parallelDispatch, baseline]

/-- The name of a built-in library. -/
def name : Library → Text
  | qualityGates => "quality-gates"
  | errorHandling => "error-handling"
  | parallelDispatch => "parallel-dispatch"
  | baseline => "baseline"

/-- The built-in library of a name. -/
def ofName? (name : Text) : Option Library := all.find? (·.name == name)

/-- What the name of a built-in library starts with in an include. -/
def scheme : Text := "builtin:"

/-- Gates that every command which changes code shares. -/
def qualityGatesProgram : List Call :=
  [ .rule "tests-pass"
      [ .severity .critical,
        .text "All tests must pass before the task is reported complete.",
        .text (("Run " : Text) ++ Tool.bash.call "cargo test" ++ " and read the full output."),
        .why "A green report over a red build hides regressions from every later task.",
        .onViolation "Stop, fix the failing tests, and run them again." ],
    .rule "no-stubs"
      [ .severity .high,
        .text "Do not leave placeholder implementations, stubbed branches, or commented-out code.",
        .why "Stubs pass review and fail in production." ],
    .rule "scope-discipline"
      [ .severity .medium,
        .text "Only modify files the task declares in scope.",
        .onViolation "Revert out-of-scope edits before submitting." ] ]

/-- The guideline that documents end with. -/
def errorHandlingProgram : List Call :=
  [ .guideline Guideline.lastKey
      [ .goal "Recover from failures without losing work.",
        .phase (.ifElse "a tool call fails" (.leaf "retry once with the same arguments")
          (.note "continue with the next step")),
        .phase (.ifThen "the retry also fails"
          (.sequence
            [ .report "the failing call and its error output",
              .abortWith "do not guess at a workaround" ])) ] ]

/-- How independent work is started in one batch. -/
def parallelDispatchProgram : List Call :=
  [ .rule "independent-branches"
      [ .severity .high,
        .text "Only batch calls that do not depend on each other's results.",
        .why "Dependent branches race and produce inconsistent state." ],
    .guideline "parallel-dispatch"
      [ .goal "Gather context with as few round trips as possible.",
        .asExample,
        .phase (.parallel
          [ .leaf (Tool.glob.call "src/**/*.rs"),
            .leaf (Tool.grep.call "\"fn main\""),
            .leaf (Tool.read.call "Cargo.toml") ]),
        .phase (.verify ["every branch returned a result"]) ] ]

/-- The calls of a built-in library. The baseline opens two of the others. -/
def program : Library → List Call
  | qualityGates => qualityGatesProgram
  | errorHandling => errorHandlingProgram
  | parallelDispatch => parallelDispatchProgram
  | baseline =>
      [ .compose qualityGates.name qualityGatesProgram,
        .compose errorHandling.name errorHandlingProgram ]

end Library

end Directives
