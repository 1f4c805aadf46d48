/-
Phases: the steps a guideline is made of.

A phase is literal text, a sequence of phases, or a control construct over
phases. Nothing in it is ever carried out: conditions, sources and messages are
texts that a reader of the document will act on.

* `Phase`: the tree.
* `Phase.payloads`: the texts of a tree, condition before branches, source
  before body, items in order.
* `Phase.thread`, `Phase.threadAll`: every payload replaced in that order, with
  a state handed from one to the next.
* `Phase.map`: every payload replaced, without a state.
-/
import Directives.Text.Basic

namespace Directives

/-- One step of a guideline. -/
inductive Phase
  /-- Literal text, of any number of lines. -/
  | leaf (text : Text)
  /-- Phases one after another. -/
  | sequence (items : List Phase)
  /-- A phase for the case that a condition holds. -/
  | ifThen (condition : Text) (body : Phase)
  /-- Two phases, one for each outcome of a condition. -/
  | ifElse (condition : Text) (body otherwise : Phase)
  /-- A phase for each member of a source. -/
  | forEach (source : Text) (body : Phase)
  /-- Phases that run at the same time. -/
  | parallel (branches : List Phase)
  /-- Phases in order, each under a bullet. -/
  | bullets (items : List Phase)
  /-- The end of the procedure. -/
  | abort
  /-- The end of the procedure, with a message. -/
  | abortWith (message : Text)
  /-- Texts to be emitted as they are. -/
  | output (lines : List Text)
  /-- Assertions to be checked. -/
  | verify (lines : List Text)
  /-- A step that may be left out. -/
  | skip (label : Text)
  /-- A remark. -/
  | note (text : Text)
  /-- Something to report back. -/
  | report (text : Text)
  deriving Repr, BEq

namespace Phase

/-! ### The payloads of a tree -/

mutual

/-- The texts of a tree in visiting order. -/
def payloads : Phase → List Text
  | leaf text => [text]
  | sequence items => payloadsAll items
  | ifThen condition body => condition :: body.payloads
  | ifElse condition body otherwise => condition :: (body.payloads ++ otherwise.payloads)
  | forEach source body => source :: body.payloads
  | parallel branches => payloadsAll branches
  | bullets items => payloadsAll items
  | abort => []
  | abortWith message => [message]
  | output lines => lines
  | verify lines => lines
  | skip label => [label]
  | note text => [text]
  | report text => [text]

/-- The texts of several trees in order. -/
def payloadsAll : List Phase → List Text
  | [] => []
  | item :: rest => item.payloads ++ payloadsAll rest

end

/-! ### Replacing the payloads -/

variable {σ : Type}

/-- Replaces texts in order, handing the state on. -/
def threadTexts (f : Text → σ → Text × σ) : List Text → σ → List Text × σ
  | [], s => ([], s)
  | text :: rest, s =>
      let (text, s) := f text s
      let (rest, s) := threadTexts f rest s
      (text :: rest, s)

mutual

/-- Replaces every text of a tree in visiting order, handing the state on. -/
def thread (f : Text → σ → Text × σ) : Phase → σ → Phase × σ
  | leaf text, s =>
      let (text, s) := f text s
      (leaf text, s)
  | sequence items, s =>
      let (items, s) := threadAll f items s
      (sequence items, s)
  | ifThen condition body, s =>
      let (condition, s) := f condition s
      let (body, s) := thread f body s
      (ifThen condition body, s)
  | ifElse condition body otherwise, s =>
      let (condition, s) := f condition s
      let (body, s) := thread f body s
      let (otherwise, s) := thread f otherwise s
      (ifElse condition body otherwise, s)
  | forEach source body, s =>
      let (source, s) := f source s
      let (body, s) := thread f body s
      (forEach source body, s)
  | parallel branches, s =>
      let (branches, s) := threadAll f branches s
      (parallel branches, s)
  | bullets items, s =>
      let (items, s) := threadAll f items s
      (bullets items, s)
  | abort, s => (abort, s)
  | abortWith message, s =>
      let (message, s) := f message s
      (abortWith message, s)
  | output lines, s =>
      let (lines, s) := threadTexts f lines s
      (output lines, s)
  | verify lines, s =>
      let (lines, s) := threadTexts f lines s
      (verify lines, s)
  | skip label, s =>
      let (label, s) := f label s
      (skip label, s)
  | note text, s =>
      let (text, s) := f text s
      (note text, s)
  | report text, s =>
      let (text, s) := f text s
      (report text, s)

/-- Replaces the texts of several trees in order, handing the state on. -/
def threadAll (f : Text → σ → Text × σ) : List Phase → σ → List Phase × σ
  | [], s => ([], s)
  | item :: rest, s =>
      let (item, s) := thread f item s
      let (rest, s) := threadAll f rest s
      (item :: rest, s)

end

/-- The tree with every text replaced. -/
def map (f : Text → Text) (phase : Phase) : Phase :=
  (phase.thread (fun text (s : Unit) => (f text, s)) ()).1

end Phase

end Directives
