/-
What resolving the payloads of a phase writes, and what it leaves in the store.

The walk over a phase resolves the payloads that have `{$`, one after another. A text
without `{$` holds no reference, so the walk comes to what resolving every payload in turn
comes to: each is written on its own, and the dangling references of all are left in
visiting order.

* `Store.resolvePayload_eq`: a payload is resolved, whether it has `{$` or not.
* `Store.resolveEach`, `Store.resolveEach_eq`: texts resolved one after another.
* `Store.resolvePhase_eq`: phases.
-/
import Directives.Proofs.Phase
import Directives.Proofs.Store.Settled
import Directives.Guideline

namespace Directives.Store

/-- A payload is resolved, whether it has `{$` or not. -/
lemma resolvePayload_eq (s : Store) (text : Text) : s.resolvePayload text = s.resolve text := by
  rw [resolvePayload]
  split_ifs with h
  · rfl
  · exact (s.resolve_of_not_contains h).symm

/-! ### Texts one after another -/

/-- Texts resolved one after another: what they are written as, and the store after the
last. -/
def resolveEach (s : Store) (texts : List Text) : List Text × Store :=
  Phase.threadTexts (fun text store => store.resolve text) texts s

/-- Writes a text and notes its dangling names. It stands between the walk with the
store and the walk without a state. -/
def noting (s : Store) (text : Text) (names : List Text) : Text × List Text :=
  (s.resolved text, names ++ s.dangling text)

lemma threadTexts_noting (s : Store) (texts names : List Text) :
    Phase.threadTexts s.noting texts names
      = (texts.map s.resolved, names ++ texts.flatMap s.dangling) := by
  induction texts generalizing names with
  | nil => simp [Phase.threadTexts]
  | cons text rest ih => simp [Phase.threadTexts, ih, noting]

/-- Resolving a text in the store with names noted is writing it and noting its names. -/
lemma resolve_addLints (s : Store) (text : Text) (names : List Text) :
    (s.addLints names).resolve text
      = ((s.noting text names).1, s.addLints (s.noting text names).2) := by
  simp [resolve_eq, noting]

/-- **Texts one after another** are written each on its own, and leave their dangling
references in order. -/
theorem resolveEach_eq (s : Store) (texts : List Text) :
    s.resolveEach texts = (texts.map s.resolved, s.addLints (texts.flatMap s.dangling)) := by
  have hnoted := @Phase.threadTexts_comm _ _ s.noting (fun text store => store.resolve text)
    s.addLints s.resolve_addLints texts []
  rw [addLints_nil, threadTexts_noting, List.nil_append] at hnoted
  exact hnoted

/-! ### Phases -/

/-- **Resolving a phase** writes each payload on its own, and leaves the dangling
references of the payloads in visiting order. -/
theorem resolvePhase_eq (s : Store) (phase : Phase) :
    s.resolvePhase phase
      = (phase.map s.resolved, s.addLints (phase.payloads.flatMap s.dangling)) := by
  have hstep : ∀ text names, (s.addLints names).resolvePayload text
      = ((s.noting text names).1, s.addLints (s.noting text names).2) := by
    intro text names
    rw [resolvePayload_eq, resolve_addLints]
  have hstore : s.resolvePhase phase
      = ((phase.thread s.noting []).1, s.addLints (phase.thread s.noting []).2) := by
    rw [← @Phase.thread_comm _ _ s.noting (fun text store => store.resolvePayload text) s.addLints
      hstep, resolvePhase, addLints_nil]
  have hmap : phase.map s.resolved = (phase.thread s.noting []).1 := by
    have hcomm := @Phase.thread_comm _ _ s.noting (fun text state => (s.resolved text, state))
      (fun _ => ()) (fun _ _ => rfl) phase []
    rw [Phase.map, hcomm]
  have hpayloads := Phase.thread_payloads s.noting phase []
  rw [threadTexts_noting, List.nil_append, Prod.mk.injEq] at hpayloads
  rw [hstore, hmap, hpayloads.2]

end Directives.Store
