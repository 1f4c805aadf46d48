/-
Definitions read from data.

A step is the first of include, declaration, rule and guideline that its datum
can be read as; fields that a kind does not know are passed over. Rules and
guidelines may also be lists of their fields in order, and so may definitions,
commands and declarations where the notation has no shape for them. A phase is a
text, a list, or a map with an operator for its only key.

* `Entry.ofDatum?`, `Step.ofDatum?`, `Definition.ofDatum?`: the readers.
* `Definition.shape`: what a YAML text is expected to hold.
* `Definition.ofYaml?`: the definition of a YAML text.
-/
import Directives.Definition.Basic
import Directives.Text.Blank
import Directives.Yaml.Shape

namespace Directives

open Datum

/-- Reads a text or a list of texts. -/
def Passage.ofDatum? : Datum → Option Passage
  | .text t => some (.one t)
  | .list items => (items.mapM text?).map .many
  | _ => none

/-- Reads a severity. -/
def Severity.ofDatum? (d : Datum) : Option Severity := do
  Severity.ofWord? (← choice? (Severity.all.map Severity.word) d)

namespace Entry

/-- The operators of a phase. -/
def operators : List Text :=
  ["if", "for_each", "parallel", "do", "abort", "output", "verify", "skip", "note", "report",
   "scenario"]

/-- The fields of a condition. -/
def ifFields : List Text := ["cond", "then", "else"]

/-- The fields of a loop. -/
def forEachFields : List Text := ["source", "body"]

/-- A message to stop with, if there is one. -/
def aborting : Option Text → Entry
  | none => abort
  | some message => abortWith message

/-- The operator that a key names. -/
def operator? : Datum → Option Text
  | .text name => if operators.contains name then some name else none
  | .nat place => operators[place]?
  | _ => none

mutual

/-- Reads a phase. -/
def ofDatum? (d : Datum) : Option Entry :=
  match d with
  | .text t => some (.leaf t)
  | .list items => (ofItems? items).map .sequence
  | .map [(key, value)] =>
      match operator? key with
      | some name => ofOperator? name value
      | none => none
  | _ => none
termination_by (sizeOf d, 0)
decreasing_by
  all_goals simp_wf; simp only [Prod.lex_def]; omega

/-- Reads the operand of an operator. -/
def ofOperator? (name : Text) (d : Datum) : Option Entry :=
  if name = "if".toList then
    if isArguments ifFields d then
      match h : argument? ifFields "then" d with
      | none => none
      | some body => do
          have := argument?_lt h
          let condition ← required? ifFields "cond" text? d
          let body ← ofDatum? body
          match h : argument? ifFields "else" d with
          | none => return .ifThen condition body
          | some .null => return .ifThen condition body
          | some otherwise =>
              have := argument?_lt h
              return .ifElse condition body (← ofDatum? otherwise)
    else none
  else if name = "for_each".toList then
    if isArguments forEachFields d then
      match h : argument? forEachFields "body" d with
      | none => none
      | some body => do
          have := argument?_lt h
          return .forEach (← required? forEachFields "source" text? d) (← ofDatum? body)
    else none
  else if name = "parallel".toList then
    match d with
    | .list items => (ofItems? items).map .parallel
    | _ => none
  else if name = "do".toList then
    match d with
    | .list items => (ofItems? items).map .bullets
    | _ => none
  else if name = "abort".toList then (nullOr? text? d).map aborting
  else if name = "output".toList then (Passage.ofDatum? d).map .output
  else if name = "verify".toList then (Passage.ofDatum? d).map .verify
  else if name = "skip".toList then d.text?.map .skip
  else if name = "note".toList then d.text?.map .note
  else if name = "report".toList then d.text?.map .report
  else if name = "scenario".toList then d.text?.map .scenario
  else none
termination_by (sizeOf d, 1)
decreasing_by
  all_goals simp_wf; simp only [Prod.lex_def]; omega

/-- Reads phases in order. -/
def ofItems? (items : List Datum) : Option (List Entry) :=
  match items with
  | [] => some []
  | item :: rest => do return (← ofDatum? item) :: (← ofItems? rest)
termination_by (sizeOf items, 0)
decreasing_by
  all_goals simp_wf; simp only [Prod.lex_def]; omega

end

end Entry

namespace Step

/-- Reads an include. -/
def include? : Datum → Option Step
  | .map entries => do
      let fields : List Text := ["include"]
      if isRecord fields entries then
        return .include (← required? fields "include" text? (.map entries))
      else none
  | _ => none

/-- Reads a declaration. -/
def declare? : Datum → Option Step
  | .map entries => do
      let fields : List Text := ["declare", "description"]
      if isRecord fields entries then
        return .declare (← required? fields "declare" text? (.map entries))
          (← orElse? fields "description" text? [] (.map entries))
      else none
  | _ => none

/-- Reads a rule. -/
def rule? (d : Datum) : Option Step := do
  let fields : List Text := ["rule", "severity", "text", "why", "on_violation"]
  if isArguments fields d then
    return .rule
      { key := ← required? fields "rule" text? d,
        severity := ← orElse? fields "severity" (nullOr? Severity.ofDatum?) none d,
        text := ← orElse? fields "text" Passage.ofDatum? (.many []) d,
        why := ← orElse? fields "why" (nullOr? text?) none d,
        onViolation := ← orElse? fields "on_violation" (nullOr? text?) none d }
  else none

/-- Reads a guideline. -/
def guideline? (d : Datum) : Option Step := do
  let fields : List Text := ["guideline", "goal", "example", "text", "phases"]
  if isArguments fields d then
    return .guideline
      { key := ← required? fields "guideline" text? d,
        goal := ← orElse? fields "goal" (nullOr? text?) none d,
        isExample := ← orElse? fields "example" bool? false d,
        text := ← orElse? fields "text" Passage.ofDatum? (.many []) d,
        phases := ← orElse? fields "phases" (listOf? Entry.ofDatum?) [] d }
  else none

/-- Reads a step: the first kind that fits. -/
def ofDatum? (d : Datum) : Option Step :=
  (include? d).or <| (declare? d).or <| (rule? d).or (guideline? d)

end Step

/-- Puts an entry at the place of its name. An entry of the same name gives way. -/
def insertNamed {α : Type} (name : Text) (value : α) : List (Text × α) → List (Text × α)
  | [] => [(name, value)]
  | (n, v) :: rest =>
      if n = name then (name, value) :: rest
      else if Text.before name n then (name, value) :: (n, v) :: rest
      else (n, v) :: insertNamed name value rest

/-- Entries in the order of their names, the last one of each name. -/
def sortNamed {α : Type} (entries : List (Text × α)) : List (Text × α) :=
  entries.foldl (fun sorted (name, value) => insertNamed name value sorted) []

/-- Reads a declaration of a command. -/
def Declaration.ofDatum? (d : Datum) : Option Declaration := do
  let fields : List Text := ["name", "description"]
  if isArguments fields d then
    return { name := ← required? fields "name" text? d,
             description := ← orElse? fields "description" text? [] d }
  else none

/-- Reads a command. -/
def Command.ofDatum? (d : Datum) : Option Command := do
  let fields : List Text := ["store", "steps"]
  if isArguments fields d then
    return { store := ← orElse? fields "store" (listOf? Declaration.ofDatum?) [] d,
             steps := ← orElse? fields "steps" (listOf? Step.ofDatum?) [] d }
  else none

namespace Definition

/-- Reads a definition. -/
def ofDatum? (d : Datum) : Option Definition := do
  let fields : List Text := ["libraries", "commands"]
  if isArguments fields d then
    return { libraries := sortNamed
               (← orElse? fields "libraries" (entriesOf? (listOf? Step.ofDatum?)) [] d),
             commands := sortNamed (← orElse? fields "commands" (entriesOf? Command.ofDatum?) [] d) }
  else none

/-- What a YAML text is expected to hold. -/
def shape : Yaml.Shape :=
  .record
    [("libraries", .map (.list .any)),
     ("commands", .map (.record
       [("store", .list (.record [("name", .text), ("description", .text)])),
        ("steps", .list .any)]))]

/-- The definition of a YAML text. A text of blanks defines nothing. -/
def ofYaml? (text : Text) : Option Definition :=
  if text.isBlankText then some {} else do ofDatum? (← Yaml.datum? shape text)

end Definition

end Directives
