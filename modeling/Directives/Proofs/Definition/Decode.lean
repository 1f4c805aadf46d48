/-
Steps and entries are read from their forms.

The kinds of a step are tried one after another, and a reader passes over the keys that it does
not know. Each reader starts with the name of its kind, and no other kind has a part of this
name. So of all the readers exactly one takes a form, whatever the order in which they are
tried, and it drops nothing.

* `Entry.HasForm.read`: an entry is read from its forms.
* `Step.readers`, `Step.ofDatum?_eq`: a step is read by the first reader that takes it.
* `Step.HasForm.taken`: a form is taken by one reader only, as the step that it is a form of.
* `forms_read`: steps and entries are read from their forms.
-/
import Directives.Definition.Decode
import Directives.Proofs.Definition.Form

namespace Directives

open Datum (isArguments required? orElse? nullOr? nullOr?_of_ne_null listOf? bool? text?)
open Json (Gives)

lemma Severity.ofDatum?_word (severity : Severity) :
    ofDatum? (.ofJson (.text severity.word)) = some severity := by
  cases severity <;> rfl

namespace Passage

lemma ofDatum?_form (passage : Passage) : ofDatum? (.ofJson passage.form) = some passage := by
  cases passage with
  | one text => rfl
  | many texts =>
      have htext : text? ∘ Datum.ofJson ∘ Json.text = fun text => pure text := rfl
      have htexts : (Datum.ofItems (texts.map .text)).mapM text? = some texts := by
        rw [Datum.ofItems_eq, List.map_map, List.mapM_map, htext, List.mapM_pure, List.map_id']
        rfl
      rw [form, Datum.ofJson, ofDatum?, htexts, Option.map_some]

/-- A passage is read from its part, and is the default where the part is missing. -/
lemma read_part {fields : List (Text × Json)} {parts : List Json.Part} {passage : Passage}
    (h : Gives fields parts) (hpart : passage.part ∈ parts) (names : List Text) :
    orElse? names "text" ofDatum? (.many []) (.ofJson (.object fields)) = some passage :=
  h.orElse? hpart passage.ofDatum?_form fun hempty => (of_decide_eq_true hempty).symm

end Passage

/-! ### Entries -/

namespace Entry

lemma ofDatum?_null : ofDatum? .null = none := by
  rw [ofDatum?.eq_def]

lemma ofItems?_eq (items : List Datum) : ofItems? items = items.mapM ofDatum? := by
  induction items with
  | nil =>
      rw [ofItems?]
      rfl
  | cons item rest ih => rw [ofItems?, ih, List.mapM_cons]

lemma ofDatum?_operation {operator : Text} (h : operators.contains operator = true)
    (operand : Json) :
    ofDatum? (.ofJson (.operation operator operand)) = ofOperator? operator (.ofJson operand) := by
  rw [Json.operation, Datum.ofJson, Datum.ofFields, Datum.ofFields, ofDatum?, operator?, if_pos h]

/-- A condition, with a second entry if there is one. -/
def branching (condition : Text) (body : Entry) : Option Entry → Entry
  | none => ifThen condition body
  | some otherwise => ifElse condition body otherwise

section Operators

variable {d : Datum} {condition source : Text} {body : Entry} {otherwise : Option Entry}

lemma ofOperator?_if (h : isArguments ifFields d = true)
    (hcondition : required? ifFields "cond" text? d = some condition)
    (hbody : required? ifFields "then" ofDatum? d = some body)
    (hotherwise : orElse? ifFields "else" (nullOr? ofDatum?) none d = some otherwise) :
    ofOperator? "if" d = some (branching condition body otherwise) := by
  obtain ⟨bodyPart, hthen, hbody⟩ := Option.bind_eq_some_iff.mp hbody
  rw [orElse?] at hotherwise
  rw [ofOperator?.eq_def, if_pos rfl, if_pos h]
  split
  · next hmissing => cases hthen.symm.trans hmissing
  · next part hpart =>
      obtain rfl : bodyPart = part := Option.some.inj (hthen.symm.trans hpart)
      simp only [hcondition, hbody, Option.bind_eq_bind, Option.bind_some]
      split
      · next helse =>
          rw [helse] at hotherwise
          obtain rfl := Option.some.inj hotherwise
          rfl
      · next helse =>
          rw [helse] at hotherwise
          obtain rfl := Option.some.inj hotherwise
          rfl
      · next elsePart hnull helse =>
          simp only [helse, nullOr?_of_ne_null hnull] at hotherwise
          obtain ⟨entry, hentry, rfl⟩ := Option.map_eq_some_iff.mp hotherwise
          rw [hentry]
          rfl

lemma ofOperator?_forEach (h : isArguments forEachFields d = true)
    (hsource : required? forEachFields "source" text? d = some source)
    (hbody : required? forEachFields "body" ofDatum? d = some body) :
    ofOperator? "for_each" d = some (.forEach source body) := by
  obtain ⟨bodyPart, hpart, hbody⟩ := Option.bind_eq_some_iff.mp hbody
  rw [ofOperator?.eq_def, if_neg (by decide), if_pos rfl, if_pos h]
  split
  · next hmissing => cases hpart.symm.trans hmissing
  · next part hsome =>
      obtain rfl : bodyPart = part := Option.some.inj (hpart.symm.trans hsome)
      simp only [hsource, hbody, Option.bind_eq_bind, Option.bind_some]
      rfl

lemma ofOperator?_parallel (items : List Datum) :
    ofOperator? "parallel" (.list items) = (items.mapM ofDatum?).map .parallel := by
  rw [ofOperator?.eq_def, ← ofItems?_eq]
  rfl

lemma ofOperator?_do (items : List Datum) :
    ofOperator? "do" (.list items) = (items.mapM ofDatum?).map .bullets := by
  rw [ofOperator?.eq_def, ← ofItems?_eq]
  rfl

end Operators

section Parts

variable {fields : List (Text × Json)} {condition source : Text} {form : Json}
  {said : Option Json} {body : Entry}

/-- A condition is read from its parts. -/
lemma ofDatum?_if (otherwise : Option Entry) (h : Gives fields (ifParts condition form said))
    (hbody : ofDatum? (.ofJson form) = some body)
    (hotherwise : (said.map fun json => ofDatum? (.ofJson json)) = otherwise.map some) :
    ofDatum? (.ofJson (.operation "if" (.object fields)))
      = some (branching condition body otherwise) := by
  rw [ofDatum?_operation rfl]
  refine ofOperator?_if h.isArguments ?_ ?_ ?_
  · exact h.required? (.head _) rfl text?
  · exact (h.required? (.tail _ (.head _)) rfl ofDatum?).trans hbody
  · exact h.option (.tail _ (.tail _ (.head _))) ofDatum?_null hotherwise

/-- A loop is read from its parts. -/
lemma ofDatum?_forEach (h : Gives fields (forEachParts source form))
    (hbody : ofDatum? (.ofJson form) = some body) :
    ofDatum? (.ofJson (.operation "for_each" (.object fields))) = some (.forEach source body) := by
  rw [ofDatum?_operation rfl]
  refine ofOperator?_forEach h.isArguments ?_ ?_
  · exact h.required? (.head _) rfl text?
  · exact (h.required? (.tail _ (.head _)) rfl ofDatum?).trans hbody

end Parts

-- By recursion on the entry. What stands inside a form is read first, and the lists item by item.
mutual

/-- **An entry is read** from each of its forms. -/
theorem HasForm.read : ∀ {entry : Entry} {form : Json}, entry.HasForm form →
    ofDatum? (.ofJson form) = some entry
  | .leaf _, _, .leaf => by rw [Datum.ofJson, ofDatum?]
  | .sequence _, _, .sequence h => by
      rw [Datum.ofJson, ofDatum?, ofItems?_eq, HasForm.readAll h, Option.map_some]
  | .ifThen _ _, _, .ifThen hbody h => ofDatum?_if none h hbody.read rfl
  | .ifElse _ _ otherwise, _, .ifElse hbody hotherwise h =>
      ofDatum?_if (some otherwise) h hbody.read (congrArg some hotherwise.read)
  | .forEach _ _, _, .forEach hbody h => ofDatum?_forEach h hbody.read
  | .parallel _, _, .parallel h => by
      rw [ofDatum?_operation rfl, Datum.ofJson, ofOperator?_parallel, HasForm.readAll h,
        Option.map_some]
  | .bullets _, _, .bullets h => by
      rw [ofDatum?_operation rfl, Datum.ofJson, ofOperator?_do, HasForm.readAll h, Option.map_some]
  | .output lines, _, .output => by
      rw [ofDatum?_operation rfl, ofOperator?.eq_def]
      exact congrArg (Option.map Entry.output) lines.ofDatum?_form
  | .verify lines, _, .verify => by
      rw [ofDatum?_operation rfl, ofOperator?.eq_def]
      exact congrArg (Option.map Entry.verify) lines.ofDatum?_form
  | .abort, _, .abort | .abortWith _, _, .abortWith | .skip _, _, .skip | .note _, _, .note
  | .report _, _, .report | .scenario _, _, .scenario => by
      rw [ofDatum?_operation rfl, ofOperator?.eq_def]
      rfl

/-- Entries are read from their forms in order. -/
lemma HasForm.readAll : ∀ {items : List Entry} {forms : List Json},
    List.Forall₂ HasForm items forms → (Datum.ofItems forms).mapM ofDatum? = some items
  | [], _, .nil => rfl
  | item :: rest, _, .cons hitem hrest => by
      rw [Datum.ofItems, List.mapM_cons, hitem.read, HasForm.readAll hrest]
      rfl

end

end Entry

/-! ### Steps -/

namespace Step

/-- The readers of the kinds of steps. -/
def readers : List (Datum → Option Step) := [include?, declare?, rule?, guideline?]

/-- **A step is read** by the first of the readers that takes it. -/
theorem ofDatum?_eq (d : Datum) : ofDatum? d = readers.findSome? fun read => read d := by
  simp only [ofDatum?, readers, List.findSome?_cons, List.findSome?_nil]
  cases include? d with
  | some _ => rfl
  | none =>
      cases declare? d with
      | some _ => rfl
      | none =>
          cases rule? d with
          | some _ => rfl
          | none => cases guideline? d <;> rfl

section Readers

variable {α : Type} {fields : List (Text × Json)} {parts : List Json.Part} {names : List Text}
  {kind key library name description : Text}

/-- A reader that starts with the name of its kind refuses a record without such a part. -/
lemma refused (h : Gives fields parts) (hkind : kind ∉ parts.map Json.Part.name)
    (rest : Text → Option α) :
    (if isArguments names (.ofJson (.object fields)) = true then
      (required? names kind text? (.ofJson (.object fields))).bind rest else none) = none := by
  rw [h.required?_eq_none hkind]
  exact ite_self none

/-- A reader that starts with the name of its kind goes on with the key that it finds there. -/
lemma goes_on (h : Gives fields parts) (hkey : ⟨kind, .text key, false⟩ ∈ parts)
    (rest : Text → Option α) :
    (if isArguments names (.ofJson (.object fields)) = true then
      (required? names kind text? (.ofJson (.object fields))).bind rest else none) = rest key := by
  rw [if_pos h.isArguments, h.required? hkey rfl]
  rfl

lemma include?_eq_none (h : Gives fields parts)
    (hkind : ("include" : Text) ∉ parts.map Json.Part.name) :
    include? (.ofJson (.object fields)) = none :=
  refused h hkind _

lemma declare?_eq_none (h : Gives fields parts)
    (hkind : ("declare" : Text) ∉ parts.map Json.Part.name) :
    declare? (.ofJson (.object fields)) = none :=
  refused h hkind _

lemma rule?_eq_none (h : Gives fields parts)
    (hkind : ("rule" : Text) ∉ parts.map Json.Part.name) :
    rule? (.ofJson (.object fields)) = none :=
  refused h hkind _

lemma guideline?_eq_none (h : Gives fields parts)
    (hkind : ("guideline" : Text) ∉ parts.map Json.Part.name) :
    guideline? (.ofJson (.object fields)) = none :=
  refused h hkind _

lemma include?_form (h : Gives fields (includeParts library)) :
    include? (.ofJson (.object fields)) = some (.include library) :=
  goes_on h (.head _) _

lemma declare?_form (h : Gives fields (declareParts name description)) :
    declare? (.ofJson (.object fields)) = some (.declare name description) := by
  have hdescription : orElse? ["declare", "description"] "description" text? []
      (.ofJson (.object fields)) = some description :=
    h.orElse? (.tail _ (.head _)) rfl fun hempty => (List.isEmpty_iff.mp hempty).symm
  rw [Datum.ofJson] at hdescription
  refine (goes_on h (.head _) _).trans ?_
  rw [hdescription]
  rfl

lemma rule?_form {r : RuleStep} (h : Gives fields r.parts) :
    rule? (.ofJson (.object fields)) = some (.rule r) := by
  have hseverity (names : List Text) : orElse? names "severity" (nullOr? Severity.ofDatum?) none
      (.ofJson (.object fields)) = some r.severity := by
    refine h.option (.tail _ (.head _)) rfl ?_
    rw [Option.map_map]
    exact Option.map_congr fun severity _ => severity.ofDatum?_word
  have htext := Passage.read_part h (.tail _ (.tail _ (.head _)))
  have hwhy (names : List Text) : orElse? names "why" (nullOr? text?) none
      (.ofJson (.object fields)) = some r.why :=
    h.option (.tail _ (.tail _ (.tail _ (.head _)))) rfl (Option.map_map _ _ _)
  have honViolation (names : List Text) : orElse? names "on_violation" (nullOr? text?) none
      (.ofJson (.object fields)) = some r.onViolation :=
    h.option (.tail _ (.tail _ (.tail _ (.tail _ (.head _))))) rfl (Option.map_map _ _ _)
  refine (goes_on h (.head _) _).trans ?_
  simp only [hseverity, htext, hwhy, honViolation, Option.bind_eq_bind, Option.bind_some]
  rfl

lemma guideline?_form {g : GuidelineStep} {phases : List Json}
    (hphases : List.Forall₂ Entry.HasForm g.phases phases) (h : Gives fields (g.parts phases)) :
    guideline? (.ofJson (.object fields)) = some (.guideline g) := by
  have hgoal (names : List Text) : orElse? names "goal" (nullOr? text?) none
      (.ofJson (.object fields)) = some g.goal :=
    h.option (.tail _ (.head _)) rfl (Option.map_map _ _ _)
  have hexample (names : List Text) : orElse? names "example" bool? false
      (.ofJson (.object fields)) = some g.isExample :=
    h.orElse? (.tail _ (.tail _ (.head _))) rfl fun hplain =>
      ((Bool.not_eq_true' _).mp hplain).symm
  have htext := Passage.read_part h (.tail _ (.tail _ (.tail _ (.head _))))
  have hentries (names : List Text) : orElse? names "phases" (listOf? Entry.ofDatum?) []
      (.ofJson (.object fields)) = some g.phases := by
    refine h.orElse? (.tail _ (.tail _ (.tail _ (.tail _ (.head _))))) ?_ fun hempty => ?_
    · exact Entry.HasForm.readAll hphases
    · rw [List.isEmpty_iff.mp hempty, List.forall₂_nil_right_iff] at hphases
      exact hphases.symm
  refine (goes_on h (.head _) _).trans ?_
  simp only [hgoal, hexample, htext, hentries, Option.bind_eq_bind, Option.bind_some]
  rfl

end Readers

/-- **A form is taken** by one reader only, as the step that it is a form of. -/
theorem HasForm.taken {step : Step} {form : Json} (h : step.HasForm form) :
    (readers.filterMap fun read => read (.ofJson form)) = [step] := by
  cases h with
  | «include» h =>
      have hdeclare := declare?_eq_none h (by simp)
      have hrule := rule?_eq_none h (by simp)
      have hguideline := guideline?_eq_none h (by simp)
      simp [readers, include?_form h, hdeclare, hrule, hguideline]
  | declare h =>
      have hinclude := include?_eq_none h (by simp)
      have hrule := rule?_eq_none h (by simp)
      have hguideline := guideline?_eq_none h (by simp)
      simp [readers, hinclude, declare?_form h, hrule, hguideline]
  | rule h =>
      have hinclude := include?_eq_none h (by simp)
      have hdeclare := declare?_eq_none h (by simp)
      have hguideline := guideline?_eq_none h (by simp)
      simp [readers, hinclude, hdeclare, rule?_form h, hguideline]
  | guideline hphases h =>
      have hinclude := include?_eq_none h (by simp)
      have hdeclare := declare?_eq_none h (by simp)
      have hrule := rule?_eq_none h (by simp)
      simp [readers, hinclude, hdeclare, hrule, guideline?_form hphases h]

end Step

/-! ### Reading forms -/

/-- **Steps and entries are read from their forms.** Each step and each entry has a form, with
all the parts of its kind and no others, at any depth. Whoever reads a form of a step, be its
parts in another order or those missing that need not be there, reads exactly this step; and of
the readers of the kinds no other takes it, so none that is tried earlier. Whoever reads a form
of an entry reads exactly this entry. -/
theorem forms_read :
    (∀ step : Step, step.HasForm step.form ∧ ∀ form, step.HasForm form →
      Step.ofDatum? (.ofJson form) = some step
        ∧ (Step.readers.filterMap fun read => read (.ofJson form)) = [step])
    ∧ ∀ entry : Entry, entry.HasForm entry.form ∧ ∀ form, entry.HasForm form →
      Entry.ofDatum? (.ofJson form) = some entry := by
  refine ⟨fun step => ⟨step.hasForm_form, fun form h => ⟨?_, h.taken⟩⟩,
    fun entry => ⟨entry.hasForm_form, fun _ h => h.read⟩⟩
  rw [Step.ofDatum?_eq, ← List.head?_filterMap, h.taken]
  rfl

/-- A condition with two branches. -/
def Entry.checked : Entry :=
  .ifElse "tests fail" .abort (.parallel [.leaf "include", .verify (.one "all green")])

/-- A form of it, with its parts in another order. -/
def Entry.checkedForm : Json :=
  .operation "if" (.object
    [("else", .operation "parallel"
      (.array [.text "include", .operation "verify" (.text "all green")])),
     ("cond", .text "tests fail"), ("then", .operation "abort" .null)])

/-- A condition over the other one. -/
def Entry.guarded : Entry := .ifThen "the task is ready" Entry.checked

/-- A form of it, in which the missing branch is null. -/
def Entry.guardedForm : Json :=
  .operation "if" (.object
    [("then", Entry.checkedForm), ("else", .null), ("cond", .text "the task is ready")])

/-- A guideline of both. -/
def Step.reviewing : Step :=
  .guideline { key := "review", isExample := true, phases := [Entry.guarded, .report "done"] }

/-- A form of it, without the parts that say nothing. -/
def Step.reviewingForm : Json :=
  .object
    [("phases", .array [Entry.guardedForm, .operation "report" (.text "done")]),
     ("example", .bool true), ("guideline", .text "review")]

lemma Entry.checked_hasForm : Entry.checked.HasForm Entry.checkedForm := by
  refine .ifElse .abort (.parallel (.cons .leaf (.cons .verify .nil))) ⟨by decide, ?_, ?_⟩
  · simp
  · simp [Entry.ifParts, Json.Part.ofOption, Passage.form, List.lookup_cons]

lemma Entry.guarded_hasForm : Entry.guarded.HasForm Entry.guardedForm := by
  refine .ifThen Entry.checked_hasForm ⟨by decide, ?_, ?_⟩
  · simp
  · simp [Entry.ifParts, Json.Part.ofOption, List.lookup_cons]

lemma Step.reviewing_hasForm : Step.reviewing.HasForm Step.reviewingForm := by
  refine .guideline (.cons Entry.guarded_hasForm (.cons .report .nil)) ⟨by decide, ?_, ?_⟩
  · simp
  · simp [GuidelineStep.parts, Passage.part, Json.Part.ofOption, List.lookup_cons]

/-- A guideline is read from a form with its parts in another order and those missing that say
nothing, and so is its first phase. -/
theorem forms_read_reviewing :
    Step.reviewing.HasForm Step.reviewingForm ∧ Entry.guarded.HasForm Entry.guardedForm
    ∧ Step.ofDatum? (.ofJson Step.reviewingForm) = some Step.reviewing
    ∧ (Step.readers.filterMap fun read => read (.ofJson Step.reviewingForm)) = [Step.reviewing]
    ∧ Entry.ofDatum? (.ofJson Entry.guardedForm) = some Entry.guarded := by
  obtain ⟨hstep, htaken⟩ :=
    (forms_read.1 Step.reviewing).2 Step.reviewingForm Step.reviewing_hasForm
  exact ⟨Step.reviewing_hasForm, Entry.guarded_hasForm, hstep, htaken,
    (forms_read.2 Entry.guarded).2 Entry.guardedForm Entry.guarded_hasForm⟩

end Directives
