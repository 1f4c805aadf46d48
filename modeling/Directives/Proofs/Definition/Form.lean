/-
The forms of steps and entries as JSON values.

A form of a step is an object with the parts of its kind: the name of the kind stands over the
key, and a part with nothing to say is null or missing, as one that is empty may be. A form of
an entry is a text, an array of forms, or an object with the operator for its only key. At every
depth the parts of an object may stand in any order.

* `Entry.HasForm`, `Step.HasForm`: the forms of an entry and of a step.
* `Entry.form`, `Step.form`: the form in which every part is there, in order.
* `Entry.hasForm_form`, `Step.hasForm_form`: they are forms.
-/
import Directives.Definition.Basic
import Directives.Proofs.Datum
import Mathlib.Data.List.Forall2

namespace Directives

open Json (Gives record)

/-- An object with one field. -/
def Json.operation (operator : Text) (operand : Json) : Json := .object [(operator, operand)]

namespace Passage

/-- A text for one text, an array for a list of texts. -/
def form : Passage → Json
  | one text => .text text
  | many texts => .array (texts.map .text)

/-- The text of a rule or a guideline as a part of it. -/
def part (passage : Passage) : Json.Part := ⟨"text", passage.form, decide (passage = .many [])⟩

end Passage

/-! ### Entries -/

namespace Entry

/-- The parts of a condition. -/
def ifParts (condition : Text) (body : Json) (otherwise : Option Json) : List Json.Part :=
  [⟨"cond", .text condition, false⟩, ⟨"then", body, false⟩, .ofOption "else" otherwise]

/-- The parts of a loop. -/
def forEachParts (source : Text) (body : Json) : List Json.Part :=
  [⟨"source", .text source, false⟩, ⟨"body", body, false⟩]

@[simp] lemma ifParts_names (condition : Text) (body : Json) (otherwise : Option Json) :
    (ifParts condition body otherwise).map Json.Part.name = ["cond", "then", "else"] := rfl

@[simp] lemma forEachParts_names (source : Text) (body : Json) :
    (forEachParts source body).map Json.Part.name = ["source", "body"] := rfl

/-- The forms of an entry. -/
inductive HasForm : Entry → Json → Prop
  | leaf {text : Text} : HasForm (.leaf text) (.text text)
  | sequence {items : List Entry} {forms : List Json} : List.Forall₂ HasForm items forms →
      HasForm (.sequence items) (.array forms)
  | ifThen {condition : Text} {body : Entry} {form : Json} {fields : List (Text × Json)} :
      HasForm body form → Gives fields (ifParts condition form none) →
      HasForm (.ifThen condition body) (.operation "if" (.object fields))
  | ifElse {condition : Text} {body otherwise : Entry} {form form' : Json}
      {fields : List (Text × Json)} : HasForm body form → HasForm otherwise form' →
      Gives fields (ifParts condition form (some form')) →
      HasForm (.ifElse condition body otherwise) (.operation "if" (.object fields))
  | forEach {source : Text} {body : Entry} {form : Json} {fields : List (Text × Json)} :
      HasForm body form → Gives fields (forEachParts source form) →
      HasForm (.forEach source body) (.operation "for_each" (.object fields))
  | parallel {branches : List Entry} {forms : List Json} : List.Forall₂ HasForm branches forms →
      HasForm (.parallel branches) (.operation "parallel" (.array forms))
  | bullets {items : List Entry} {forms : List Json} : List.Forall₂ HasForm items forms →
      HasForm (.bullets items) (.operation "do" (.array forms))
  | abort : HasForm .abort (.operation "abort" .null)
  | abortWith {message : Text} : HasForm (.abortWith message) (.operation "abort" (.text message))
  | output {lines : Passage} : HasForm (.output lines) (.operation "output" lines.form)
  | verify {lines : Passage} : HasForm (.verify lines) (.operation "verify" lines.form)
  | skip {label : Text} : HasForm (.skip label) (.operation "skip" (.text label))
  | note {text : Text} : HasForm (.note text) (.operation "note" (.text text))
  | report {text : Text} : HasForm (.report text) (.operation "report" (.text text))
  | scenario {text : Text} : HasForm (.scenario text) (.operation "scenario" (.text text))

mutual

/-- The form of an entry in which every part is there, in order. -/
def form : Entry → Json
  | leaf text => .text text
  | sequence items => .array (forms items)
  | ifThen condition body => .operation "if" (record (ifParts condition body.form none))
  | ifElse condition body otherwise =>
      .operation "if" (record (ifParts condition body.form (some otherwise.form)))
  | forEach source body => .operation "for_each" (record (forEachParts source body.form))
  | parallel branches => .operation "parallel" (.array (forms branches))
  | bullets items => .operation "do" (.array (forms items))
  | abort => .operation "abort" .null
  | abortWith message => .operation "abort" (.text message)
  | output lines => .operation "output" lines.form
  | verify lines => .operation "verify" lines.form
  | skip label => .operation "skip" (.text label)
  | note text => .operation "note" (.text text)
  | report text => .operation "report" (.text text)
  | scenario text => .operation "scenario" (.text text)

/-- The forms of entries in order. -/
def forms : List Entry → List Json
  | [] => []
  | item :: rest => item.form :: forms rest

end

lemma gives_ifParts (condition : Text) (body : Json) (otherwise : Option Json) :
    Gives ((ifParts condition body otherwise).map fun part => (part.name, part.value))
      (ifParts condition body otherwise) :=
  Json.gives_self (by simp)

lemma gives_forEachParts (source : Text) (body : Json) :
    Gives ((forEachParts source body).map fun part => (part.name, part.value))
      (forEachParts source body) :=
  Json.gives_self (by simp)

mutual

/-- **Each entry has a form.** -/
theorem hasForm_form : ∀ entry : Entry, entry.HasForm entry.form
  | leaf _ => .leaf
  | sequence items => .sequence (forall₂_forms items)
  | ifThen condition body => .ifThen (hasForm_form body) (gives_ifParts condition body.form none)
  | ifElse condition body otherwise =>
      .ifElse (hasForm_form body) (hasForm_form otherwise)
        (gives_ifParts condition body.form (some otherwise.form))
  | forEach source body => .forEach (hasForm_form body) (gives_forEachParts source body.form)
  | parallel branches => .parallel (forall₂_forms branches)
  | bullets items => .bullets (forall₂_forms items)
  | abort => .abort
  | abortWith _ => .abortWith
  | output _ => .output
  | verify _ => .verify
  | skip _ => .skip
  | note _ => .note
  | report _ => .report
  | scenario _ => .scenario

lemma forall₂_forms : ∀ items : List Entry, List.Forall₂ HasForm items (forms items)
  | [] => .nil
  | item :: rest => .cons (hasForm_form item) (forall₂_forms rest)

end

end Entry

/-! ### Steps -/

/-- The parts of a rule. -/
def RuleStep.parts (r : RuleStep) : List Json.Part :=
  [⟨"rule", .text r.key, false⟩, .ofOption "severity" (r.severity.map fun s => .text s.word),
   r.text.part, .ofOption "why" (r.why.map .text),
   .ofOption "on_violation" (r.onViolation.map .text)]

/-- The parts of a guideline whose phases have the given forms. -/
def GuidelineStep.parts (g : GuidelineStep) (phases : List Json) : List Json.Part :=
  [⟨"guideline", .text g.key, false⟩, .ofOption "goal" (g.goal.map .text),
   ⟨"example", .bool g.isExample, !g.isExample⟩, g.text.part,
   ⟨"phases", .array phases, phases.isEmpty⟩]

@[simp] lemma RuleStep.parts_names (r : RuleStep) :
    r.parts.map Json.Part.name = ["rule", "severity", "text", "why", "on_violation"] := rfl

@[simp] lemma GuidelineStep.parts_names (g : GuidelineStep) (phases : List Json) :
    (g.parts phases).map Json.Part.name = ["guideline", "goal", "example", "text", "phases"] := rfl

namespace Step

/-- The parts of an include. -/
def includeParts (library : Text) : List Json.Part := [⟨"include", .text library, false⟩]

/-- The parts of a declaration. -/
def declareParts (name description : Text) : List Json.Part :=
  [⟨"declare", .text name, false⟩, ⟨"description", .text description, description.isEmpty⟩]

@[simp] lemma includeParts_names (library : Text) :
    (includeParts library).map Json.Part.name = ["include"] := rfl

@[simp] lemma declareParts_names (name description : Text) :
    (declareParts name description).map Json.Part.name = ["declare", "description"] := rfl

/-- The forms of a step. -/
inductive HasForm : Step → Json → Prop
  | include {library : Text} {fields : List (Text × Json)} :
      Gives fields (includeParts library) → HasForm (.include library) (.object fields)
  | declare {name description : Text} {fields : List (Text × Json)} :
      Gives fields (declareParts name description) →
      HasForm (.declare name description) (.object fields)
  | rule {r : RuleStep} {fields : List (Text × Json)} :
      Gives fields r.parts → HasForm (.rule r) (.object fields)
  | guideline {g : GuidelineStep} {phases : List Json} {fields : List (Text × Json)} :
      List.Forall₂ Entry.HasForm g.phases phases → Gives fields (g.parts phases) →
      HasForm (.guideline g) (.object fields)

/-- The form of a step in which every part is there, in order. -/
def form : Step → Json
  | .include library => record (includeParts library)
  | .declare name description => record (declareParts name description)
  | .rule r => record r.parts
  | .guideline g => record (g.parts (Entry.forms g.phases))

/-- **Each step has a form.** -/
theorem hasForm_form : ∀ step : Step, step.HasForm step.form
  | .include _ => .include (Json.gives_self (by simp))
  | .declare _ _ => .declare (Json.gives_self (by simp))
  | .rule r => .rule (Json.gives_self (by simp))
  | .guideline g =>
      .guideline (Entry.forall₂_forms g.phases)
        (Json.gives_self (by simp))

end Step

end Directives
