/-
Rules: named constraints of a given severity.

* `Severity`: the four grades, from critical to low, in the order documents
  list them.
* `Rule`: a key, a severity, a body, and perhaps a rationale and a text for
  violations.
* `Rule.Call`: one setter; `Rule.apply` carries it out. Texts are resolved in
  the store on their way in. Bodies add up, every other setter replaces.
-/
import Directives.Registry
import Directives.Store.Basic

namespace Directives

/-- How grave the breach of a rule is. -/
inductive Severity
  | critical
  | high
  | medium
  | low
  deriving Repr, DecidableEq

namespace Severity

/-- All severities in the order of documents. -/
def all : List Severity := [critical, high, medium, low]

/-- The word for a severity in section headers. -/
def label : Severity → Text
  | critical => "CRITICAL"
  | high => "HIGH"
  | medium => "MEDIUM"
  | low => "LOW"

/-- The word for a severity in definitions. -/
def word : Severity → Text
  | critical => "critical"
  | high => "high"
  | medium => "medium"
  | low => "low"

/-- The place of a severity in the order of documents. -/
def rank : Severity → Nat
  | critical => 0
  | high => 1
  | medium => 2
  | low => 3

/-- The severity of a word. -/
def ofWord? (word : Text) : Option Severity := all.find? (·.word == word)

end Severity

/-- A named constraint. -/
structure Rule where
  /-- The key, unique within one command. -/
  key : Text
  severity : Severity := .medium
  /-- The body; its parts are joined by line feeds. -/
  body : Text := []
  rationale : Option Text := none
  violation : Option Text := none
  deriving Repr, DecidableEq

instance : Keyed Rule := ⟨Rule.key⟩

namespace Rule

/-- One setter of a rule. -/
inductive Call
  | severity (severity : Severity)
  | text (body : Text)
  | why (rationale : Text)
  | onViolation (text : Text)
  deriving Repr, DecidableEq

/-- The body with one more part. An empty part changes nothing. -/
def appendBody (body part : Text) : Text :=
  if part.isEmpty then body
  else if body.isEmpty then part
  else body ++ '\n' :: part

/-- Carries out one setter. -/
def apply (rule : Rule) (store : Store) : Call → Rule × Store
  | .severity severity => ({ rule with severity }, store)
  | .text body =>
      let (part, store) := store.resolve body
      ({ rule with body := appendBody rule.body part }, store)
  | .why rationale =>
      let (rationale, store) := store.resolve rationale
      ({ rule with rationale := some rationale }, store)
  | .onViolation text =>
      let (text, store) := store.resolve text
      ({ rule with violation := some text }, store)

/-- Carries out setters in order. -/
def applyAll (rule : Rule) (store : Store) : List Call → Rule × Store
  | [] => (rule, store)
  | call :: rest =>
      let (rule, store) := rule.apply store call
      rule.applyAll store rest

end Rule

end Directives
