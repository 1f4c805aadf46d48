/-
Outlines of phases.

The outline of a phase is what is left of it when its texts are taken away: the construct
at each node, how many texts it has, and the outlines of the phases inside. Replacing texts
leaves the outline as it is. The texts of a phase, in visiting order, are the other half of
it: the outline says which of them belongs to which node.

* `Construct`, `Outline`, `Phase.outline`: the outline of a phase.
* `Phase.outline_thread`, `Phase.outline_map`: replacing texts leaves the outline.
* `Phase.outline_append_inj`, `Phase.eq_of_outline_eq`: a phase is determined by its
  outline and its texts.
-/
import Directives.Proofs.Phase

namespace Directives

/-- What stands at a node of a phase. -/
inductive Construct
  | leaf
  | sequence
  | ifThen
  | ifElse
  | forEach
  | parallel
  | bullets
  | abort
  | abortWith
  | output
  | verify
  | skip
  | note
  | report
  deriving Repr, DecidableEq

/-- A node, with the number of its texts and the outlines of the phases inside. -/
inductive Outline
  | node (construct : Construct) (texts : Nat) (inside : List Outline)
  deriving Repr

namespace Phase

mutual

/-- The phase without its texts. -/
def outline : Phase → Outline
  | leaf _ => .node .leaf 1 []
  | sequence items => .node .sequence 0 (outlines items)
  | ifThen _ body => .node .ifThen 1 [body.outline]
  | ifElse _ body otherwise => .node .ifElse 1 [body.outline, otherwise.outline]
  | forEach _ body => .node .forEach 1 [body.outline]
  | parallel branches => .node .parallel 0 (outlines branches)
  | bullets items => .node .bullets 0 (outlines items)
  | abort => .node .abort 0 []
  | abortWith _ => .node .abortWith 1 []
  | output lines => .node .output lines.length []
  | verify lines => .node .verify lines.length []
  | skip _ => .node .skip 1 []
  | note _ => .node .note 1 []
  | report _ => .node .report 1 []

/-- The outlines of several phases in order. -/
def outlines : List Phase → List Outline
  | [] => []
  | item :: rest => item.outline :: outlines rest

end

/-! ### Replacing texts -/

section Thread

variable {σ : Type} (f : Text → σ → Text × σ)

lemma length_threadTexts (texts : List Text) (s : σ) :
    (threadTexts f texts s).1.length = texts.length := by
  induction texts generalizing s with
  | nil => rfl
  | cons text rest ih => exact congrArg (· + 1) (ih (f text s).2)

lemma outlines_threadAll {items : List Phase}
    (hitems : ∀ item ∈ items, ∀ s, (item.thread f s).1.outline = item.outline) (s : σ) :
    outlines (threadAll f items s).1 = outlines items := by
  induction items generalizing s with
  | nil => rfl
  | cons item rest ih =>
      have hitem := hitems item List.mem_cons_self s
      have hrest := ih (fun other hother => hitems other (List.mem_cons_of_mem item hother))
      simp only [threadAll, outlines, hitem, hrest]

/-- **Replacing the texts of a phase** leaves its outline as it is. -/
theorem outline_thread (phase : Phase) (s : σ) : (phase.thread f s).1.outline = phase.outline := by
  induction phase using induction generalizing s with
  | leaf text => rfl
  | sequence items ih => exact congrArg (Outline.node .sequence 0) (outlines_threadAll f ih s)
  | ifThen condition body ih => simp only [thread, outline, ih]
  | ifElse condition body otherwise ihBody ihOtherwise =>
      simp only [thread, outline, ihBody, ihOtherwise]
  | forEach source body ih => simp only [thread, outline, ih]
  | parallel branches ih => exact congrArg (Outline.node .parallel 0) (outlines_threadAll f ih s)
  | bullets items ih => exact congrArg (Outline.node .bullets 0) (outlines_threadAll f ih s)
  | abort => rfl
  | abortWith message => rfl
  | output lines => simp only [thread, outline, length_threadTexts]
  | verify lines => simp only [thread, outline, length_threadTexts]
  | skip label => rfl
  | note text => rfl
  | report text => rfl

end Thread

lemma outline_map (f : Text → Text) (phase : Phase) : (phase.map f).outline = phase.outline :=
  outline_thread _ phase ()

/-! ### What an outline and texts determine -/

lemma outlines_append_inj {items : List Phase}
    (hitems : ∀ item ∈ items, ∀ (other : Phase) (more more' : List Text),
      item.outline = other.outline → item.payloads ++ more = other.payloads ++ more' →
      item = other ∧ more = more')
    {others : List Phase} {more more' : List Text} (houtline : outlines items = outlines others)
    (htexts : payloadsAll items ++ more = payloadsAll others ++ more') :
    items = others ∧ more = more' := by
  induction items generalizing others more more' with
  | nil =>
      cases others with
      | nil => exact ⟨rfl, htexts⟩
      | cons other others => cases houtline
  | cons item rest ih =>
      cases others with
      | nil => cases houtline
      | cons other others =>
          obtain ⟨hfirst, hrest⟩ := List.cons.inj houtline
          rw [payloadsAll, payloadsAll, List.append_assoc, List.append_assoc] at htexts
          obtain ⟨rfl, hmore⟩ := hitems item List.mem_cons_self other _ _ hfirst htexts
          obtain ⟨rfl, rfl⟩ :=
            ih (fun p hp => hitems p (List.mem_cons_of_mem item hp)) hrest hmore
          exact ⟨rfl, rfl⟩

/-- **A phase is its outline and its texts**: where phases of one outline have their texts in
front of lists that are equal, the phases are equal, and so is the rest of the lists. -/
theorem outline_append_inj {phase other : Phase} {more more' : List Text}
    (houtline : phase.outline = other.outline)
    (htexts : phase.payloads ++ more = other.payloads ++ more') :
    phase = other ∧ more = more' := by
  -- The outlines differ unless the same construct stands at both nodes. The texts of a node
  -- stand in front of those inside it, and the outline says how many they are.
  induction phase using induction generalizing other more more' with
  | leaf | abortWith | skip | note | report =>
      cases other <;> cases houtline
      obtain ⟨rfl, rfl⟩ := List.cons.inj htexts
      exact ⟨rfl, rfl⟩
  | output | verify =>
      cases other <;> try cases houtline
      obtain ⟨rfl, rfl⟩ := List.append_inj htexts (Outline.node.inj houtline).2.1
      exact ⟨rfl, rfl⟩
  | abort =>
      cases other <;> cases houtline
      exact ⟨rfl, htexts⟩
  | sequence items ih | parallel branches ih | bullets items ih =>
      cases other <;> try cases houtline
      obtain ⟨rfl, rfl⟩ := outlines_append_inj ih (Outline.node.inj houtline).2.2 htexts
      exact ⟨rfl, rfl⟩
  | ifThen condition body ih | forEach source body ih =>
      cases other <;> try cases houtline
      obtain ⟨rfl, hinside⟩ := List.cons.inj htexts
      obtain ⟨rfl, rfl⟩ := ih (List.cons.inj (Outline.node.inj houtline).2.2).1 hinside
      exact ⟨rfl, rfl⟩
  | ifElse condition body otherwise ihBody ihOtherwise =>
      cases other <;> try cases houtline
      obtain ⟨rfl, hinside⟩ := List.cons.inj htexts
      obtain ⟨hbody, hotherwise⟩ := List.cons.inj (Outline.node.inj houtline).2.2
      rw [List.append_eq, List.append_eq, List.append_assoc, List.append_assoc] at hinside
      obtain ⟨rfl, hlast⟩ := ihBody hbody hinside
      obtain ⟨rfl, rfl⟩ := ihOtherwise (List.cons.inj hotherwise).1 hlast
      exact ⟨rfl, rfl⟩

/-- A phase is determined by its outline and its texts. -/
lemma eq_of_outline_eq {phase other : Phase} (houtline : phase.outline = other.outline)
    (htexts : phase.payloads = other.payloads) : phase = other :=
  (outline_append_inj houtline (congrArg (· ++ []) htexts)).1

end Phase

end Directives
