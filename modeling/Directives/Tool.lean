/-
Calls of agent tools, as texts.

* `Tool`: the tools an agent has; `Tool.call` and `Tool.describe` spell their use.
* `Tool.callArguments`: a call with shell-quoted arguments.
* `Tool.agent`: a task for another agent.
* `Server`: a server of further methods, and the spelling of its calls.
-/
import Directives.Text.Basic

namespace Directives

/-- A tool of an agent. -/
inductive Tool
  | bash
  | task
  | read
  | edit
  | write
  | glob
  | grep
  | webSearch
  deriving Repr, DecidableEq

namespace Tool

/-- All tools. -/
def all : List Tool := [bash, task, read, edit, write, glob, grep, webSearch]

/-- The name of a tool. -/
def name : Tool → Text
  | bash => "Bash"
  | task => "Task"
  | read => "Read"
  | edit => "Edit"
  | write => "Write"
  | glob => "Glob"
  | grep => "Grep"
  | webSearch => "WebSearch"

/-- A tool with its arguments in parentheses. -/
def call (tool : Tool) (arguments : Text) : Text := tool.name ++ '(' :: arguments ++ [')']

/-- The sentence that says what a tool is used for. -/
def describe (tool : Tool) (purpose : Text) : Text :=
  ("Use " : Text) ++ tool.name ++ " to " ++ purpose

/-- The characters a shell reads as more than themselves. -/
def shellSpecial : Text := "|&;<>()$`\\\"' \t\n*?[#~=%"

/-- An argument as a shell reads it back: as it is where no character is
special, else between single quotes, with `'\''` for a single quote. -/
def shellQuote (argument : Text) : Text :=
  if argument.isEmpty || argument.any (· ∈ shellSpecial) then
    '\'' :: argument.flatMap (fun c => if c = '\'' then ("'\\''" : Text) else [c]) ++ ['\'']
  else
    argument

/-- A tool with shell-quoted arguments. -/
def callArguments (tool : Tool) (arguments : List Text) : Text :=
  tool.call (Text.join " " (arguments.map shellQuote))

/-- A task for another agent. A double quote in the prompt is escaped. -/
def agent (name prompt : Text) : Text :=
  task.call (("@agent-" : Text) ++ name ++ ", \"" ++ Text.replaceAll "\"" "\\\"" prompt ++ ['"'])

end Tool

/-- A server whose methods are called by their full name. -/
structure Server where
  name : Text
  deriving Repr, DecidableEq

namespace Server

/-- The full name of a method. -/
def method (server : Server) (method : Text) : Text :=
  ("mcp__" : Text) ++ server.name ++ "__" ++ method

/-- A method with its arguments in parentheses. -/
def call (server : Server) (method arguments : Text) : Text :=
  server.method method ++ '(' :: arguments ++ [')']

end Server

end Directives
