/-
Walks over phases.

Replacing the payloads of a tree is replacing its texts one after another, and a
walk that hands a state on can be made on any image of the state.

* `Phase.induction`: what goes from the items of a phase to the phase holds of
  every phase.
* `Phase.payloadsAll_eq`: the texts of several trees are those of each in turn.
* `Phase.thread_payloads`: the walk acts on the payloads as on a list of texts.
* `Phase.payloads_map`: a tree with its texts replaced has the texts replaced.
* `Phase.visited_eq`: the walk comes to the payloads.
* `Phase.thread_comm`: a map of states that every replacement commutes with
  commutes with the walk.
-/
import Mathlib.Tactic
import Directives.Phase

namespace Directives.Phase

/-! ### Induction over phases -/

/-- The induction principle of phases: a property holds of every phase once it
is inherited from the phases inside. -/
@[elab_as_elim]
theorem induction {P : Phase → Prop} (leaf : ∀ text, P (.leaf text))
    (sequence : ∀ items, (∀ item ∈ items, P item) → P (.sequence items))
    (ifThen : ∀ condition body, P body → P (.ifThen condition body))
    (ifElse : ∀ condition body otherwise, P body → P otherwise →
      P (.ifElse condition body otherwise))
    (forEach : ∀ source body, P body → P (.forEach source body))
    (parallel : ∀ branches, (∀ branch ∈ branches, P branch) → P (.parallel branches))
    (bullets : ∀ items, (∀ item ∈ items, P item) → P (.bullets items))
    (abort : P .abort) (abortWith : ∀ message, P (.abortWith message))
    (output : ∀ lines, P (.output lines)) (verify : ∀ lines, P (.verify lines))
    (skip : ∀ label, P (.skip label)) (note : ∀ text, P (.note text))
    (report : ∀ text, P (.report text)) (phase : Phase) : P phase :=
  @Phase.rec P (fun items => ∀ item ∈ items, P item)
    leaf sequence ifThen ifElse forEach parallel bullets abort abortWith output verify skip note
    report
    (fun _ hitem => absurd hitem (by simp))
    (fun _ _ onItem onRest item hitem => by
      rcases List.mem_cons.mp hitem with rfl | hrest
      · exact onItem
      · exact onRest item hrest)
    phase

/-! ### Payloads -/

/-- The texts of several trees are those of each in turn. -/
lemma payloadsAll_eq (items : List Phase) : payloadsAll items = items.flatMap payloads := by
  induction items with
  | nil => rfl
  | cons item rest ih => rw [payloadsAll, ih, List.flatMap_cons]

variable {σ τ : Type}

lemma threadTexts_append (f : Text → σ → Text × σ) (before after : List Text) (s : σ) :
    threadTexts f (before ++ after) s
      = ((threadTexts f before s).1 ++ (threadTexts f after (threadTexts f before s).2).1,
          (threadTexts f after (threadTexts f before s).2).2) := by
  induction before generalizing s with
  | nil => rfl
  | cons text rest ih => simp [threadTexts, ih]

/-- What the walk does to trees it does to a list of trees. -/
lemma threadAll_payloads {f : Text → σ → Text × σ} {items : List Phase}
    (hitems : ∀ item ∈ items, ∀ s,
      threadTexts f item.payloads s = ((item.thread f s).1.payloads, (item.thread f s).2)) (s : σ) :
    threadTexts f (payloadsAll items) s
      = (payloadsAll (threadAll f items s).1, (threadAll f items s).2) := by
  induction items generalizing s with
  | nil => rfl
  | cons item rest ih =>
      have hitem := hitems item (by simp)
      have hrest := ih fun other hother => hitems other (by simp [hother])
      simp only [payloadsAll, threadAll, threadTexts_append, hitem, hrest]

/-- The walk replaces the payloads of a tree as `threadTexts` replaces a list of
texts. -/
theorem thread_payloads (f : Text → σ → Text × σ) (phase : Phase) (s : σ) :
    threadTexts f phase.payloads s = ((phase.thread f s).1.payloads, (phase.thread f s).2) := by
  induction phase using induction generalizing s with
  | leaf text => rfl
  | sequence items ih => exact threadAll_payloads ih s
  | ifThen condition body ih => simp only [payloads, thread, threadTexts, ih]
  | ifElse condition body otherwise ihBody ihOtherwise =>
      simp only [payloads, thread, threadTexts, threadTexts_append, ihBody, ihOtherwise]
  | forEach source body ih => simp only [payloads, thread, threadTexts, ih]
  | parallel branches ih => exact threadAll_payloads ih s
  | bullets items ih => exact threadAll_payloads ih s
  | abort => rfl
  | abortWith message => rfl
  | output lines => rfl
  | verify lines => rfl
  | skip label => rfl
  | note text => rfl
  | report text => rfl

/-- Without a state, the payloads are replaced one by one. -/
lemma payloads_map (f : Text → Text) (phase : Phase) :
    (phase.map f).payloads = phase.payloads.map f := by
  have htexts : ∀ texts, (threadTexts (fun text (s : Unit) => (f text, s)) texts ()).1
      = texts.map f := by
    intro texts
    induction texts with
    | nil => rfl
    | cons text rest ih => exact congrArg (f text :: ·) ih
  rw [map, ← htexts, thread_payloads]

/-- The texts of a tree in the order in which a walk that replaces them comes to them. -/
def visited (phase : Phase) : List Text :=
  (phase.thread (fun text seen => (text, seen ++ [text])) []).2

/-- The walk comes to the payloads, in order. -/
theorem visited_eq (phase : Phase) : phase.visited = phase.payloads := by
  have htexts : ∀ texts seen : List Text,
      (threadTexts (fun text seen => (text, seen ++ [text])) texts seen).2 = seen ++ texts := by
    intro texts
    induction texts with
    | nil => exact fun seen => (List.append_nil seen).symm
    | cons text rest ih =>
        intro seen
        rw [threadTexts, ih, List.append_assoc, List.singleton_append]
  rw [visited, ← List.nil_append phase.payloads, ← htexts, thread_payloads]

/-! ### Images of the state -/

section Image

variable {f : Text → σ → Text × σ} {g : Text → τ → Text × τ} {image : σ → τ}

lemma threadTexts_comm (h : ∀ text s, g text (image s) = ((f text s).1, image (f text s).2))
    (texts : List Text) (s : σ) :
    threadTexts g texts (image s)
      = ((threadTexts f texts s).1, image (threadTexts f texts s).2) := by
  induction texts generalizing s with
  | nil => rfl
  | cons text rest ih => simp only [threadTexts, h, ih]

lemma threadAll_comm {items : List Phase}
    (hitems : ∀ item ∈ items, ∀ s,
      item.thread g (image s) = ((item.thread f s).1, image (item.thread f s).2)) (s : σ) :
    threadAll g items (image s)
      = ((threadAll f items s).1, image (threadAll f items s).2) := by
  induction items generalizing s with
  | nil => rfl
  | cons item rest ih =>
      have hitem := hitems item (by simp)
      have hrest := ih fun other hother => hitems other (by simp [hother])
      simp only [threadAll, hitem, hrest]

/-- A map of states that every replacement commutes with commutes with the walk
over a tree: the new tree is the same. -/
theorem thread_comm (h : ∀ text s, g text (image s) = ((f text s).1, image (f text s).2))
    (phase : Phase) (s : σ) :
    phase.thread g (image s) = ((phase.thread f s).1, image (phase.thread f s).2) := by
  induction phase using induction generalizing s with
  | leaf text => simp only [thread, h]
  | sequence items ih => simp only [thread, threadAll_comm ih]
  | ifThen condition body ih => simp only [thread, h, ih]
  | ifElse condition body otherwise ihBody ihOtherwise =>
      simp only [thread, h, ihBody, ihOtherwise]
  | forEach source body ih => simp only [thread, h, ih]
  | parallel branches ih => simp only [thread, threadAll_comm ih]
  | bullets items ih => simp only [thread, threadAll_comm ih]
  | abort => rfl
  | abortWith message => simp only [thread, h]
  | output lines => simp only [thread, threadTexts_comm h]
  | verify lines => simp only [thread, threadTexts_comm h]
  | skip label => simp only [thread, h]
  | note text => simp only [thread, h]
  | report text => simp only [thread, h]

end Image

end Directives.Phase
