/-
Diagnostics recorded by hand, and the libraries that are open then.

A library that is opened is closed after its calls, so the libraries that are open
at a call are those around it in the program. What a program records by hand is
known before it runs, together with the libraries it is recorded under.

* `Draft.runAll_trail`: a program closes every library it opens.
* `Call.notices`: the diagnostics that a program records by hand.
* `Draft.noticed`, `Draft.noticed_runAll`: a program leaves its notices, in order.
* `Draft.noted_runAll`: the same, without the libraries.
-/
import Directives.Proofs.Draft.Collision

namespace Directives

/-! ### Open libraries -/

namespace Draft

/-- A call that registers a directive opens no library and closes none. -/
lemma trail_run {call : Call} {r : Registration} (h : call.registration? = some r) (d : Draft) :
    (d.run call).trail = d.trail := by
  cases call with
  | rule key setters => rw [run, addRule_eq, collide_eq]
  | guideline key setters => rw [run, addGuideline_eq, collide_eq]
  | _ => simp [Call.registration?] at h

/-- **A program closes every library it opens**, and no other. -/
theorem runAll_trail (calls : List Call) (d : Draft) : (d.runAll calls).trail = d.trail := by
  induction calls using Call.induction generalizing d with
  | nil => rfl
  | declare name description rest ih => exact ih (d.declare name description).2
  | reference name rest ih => exact ih (d.reference name).2
  | rule key setters rest ih =>
      rw [runAll_cons, ih, trail_run (r := .rule key) rfl]
  | guideline key setters rest ih =>
      rw [runAll_cons, ih, trail_run (r := .guideline key) rfl]
  | record level finding rest ih => exact ih (d.record level finding)
  | compose library body rest ihBody ih =>
      have hinside : ((d.enter library).runAll body).trail = d.trail ++ [library] :=
        ihBody (d.enter library)
      have hleave : ((d.enter library).runAll body).leave.trail = d.trail := by
        show ((d.enter library).runAll body).trail.dropLast = d.trail
        rw [hinside, List.dropLast_concat]
      exact (ih ((d.enter library).runAll body).leave).trans hleave

end Draft

/-! ### Notices -/

namespace Call

mutual

/-- The diagnostics a call records by hand, where `opened` are the libraries that are
open, outermost first. -/
def notice (opened : List Text) : Call → List Diagnostic
  | record level finding => [⟨level, finding, opened⟩]
  | compose library body => notices (opened ++ [library]) body
  | _ => []

/-- The diagnostics a program records by hand, in order. -/
def notices (opened : List Text) : List Call → List Diagnostic
  | [] => []
  | call :: rest => call.notice opened ++ notices opened rest

end

@[simp] lemma notices_nil (opened : List Text) : notices opened [] = [] := rfl

lemma notices_cons (opened : List Text) (call : Call) (rest : List Call) :
    notices opened (call :: rest) = call.notice opened ++ notices opened rest := rfl

@[simp] lemma notice_record (opened : List Text) (level : Level) (finding : Finding) :
    notice opened (.record level finding) = [⟨level, finding, opened⟩] := rfl

@[simp] lemma notice_compose (opened : List Text) (library : Text) (body : List Call) :
    notice opened (.compose library body) = notices (opened ++ [library]) body := rfl

/-- Without the libraries they are recorded under, notices are the notes of a
program. -/
lemma map_notices (calls : List Call) (opened : List Text) :
    (notices opened calls).map (fun g => (g.level, g.finding)) = notes calls := by
  induction calls using Call.induction generalizing opened with
  | nil => rfl
  | declare name description rest ih => exact ih opened
  | reference name rest ih => exact ih opened
  | rule key setters rest ih => exact ih opened
  | guideline key setters rest ih => exact ih opened
  | record level finding rest ih => exact congrArg ((level, finding) :: ·) (ih opened)
  | compose library body rest ihBody ih =>
      rw [notices_cons, List.map_append, ih, notice_compose, ihBody, notes_cons, notes_compose]

end Call

namespace Draft

/-- The diagnostics that are about no collision, in order. -/
def noticed (d : Draft) : List Diagnostic := d.recorded.filter (!·.finding.isCollision)

lemma noticed_run {call : Call} {r : Registration} (h : call.registration? = some r)
    (d : Draft) : (d.run call).noticed = d.noticed := by
  rw [noticed, recorded_run h]
  by_cases hr : r ∈ d.registered
  · cases hlevel : d.policy.level? <;> simp [noticed, hr]
  · simp [noticed, hr]

/-- **The notices of a program**: apart from collisions a program leaves the
diagnostics it records by hand, each under the libraries around it. -/
theorem noticed_runAll {calls : List Call}
    (clean : ∀ note ∈ Call.notes calls, note.2.isCollision = false) (d : Draft) :
    (d.runAll calls).noticed = d.noticed ++ Call.notices d.trail calls := by
  induction calls using Call.induction generalizing d with
  | nil => simp
  | declare name description rest ih => exact ih clean (d.declare name description).2
  | reference name rest ih =>
      have htrail : (d.run (.reference name)).trail = d.trail := runAll_trail [.reference name] d
      rw [runAll_cons, ih clean, htrail]
      rfl
  | rule key setters rest ih =>
      rw [runAll_cons, ih clean, noticed_run (r := .rule key) rfl, trail_run (r := .rule key) rfl]
      rfl
  | guideline key setters rest ih =>
      rw [runAll_cons, ih clean, noticed_run (r := .guideline key) rfl,
        trail_run (r := .guideline key) rfl]
      rfl
  | record level finding rest ih =>
      rw [Call.notes_cons, List.forall_mem_append] at clean
      have hfinding : finding.isCollision = false := clean.1 (level, finding) (by simp)
      have hnoticed : (d.record level finding).noticed
          = d.noticed ++ [⟨level, finding, d.trail⟩] := by
        simp [noticed, record, hfinding]
      rw [runAll_cons, run, ih clean.2, hnoticed, List.append_assoc]
      rfl
  | compose library body rest ihBody ih =>
      rw [Call.notes_cons, Call.notes_compose, List.forall_mem_append] at clean
      have hbody : ((d.enter library).runAll body).leave.noticed
          = d.noticed ++ Call.notices (d.trail ++ [library]) body :=
        ihBody clean.1 (d.enter library)
      have htrail : ((d.enter library).runAll body).leave.trail = d.trail :=
        runAll_trail [.compose library body] d
      rw [runAll_cons, run, ih clean.2, hbody, htrail, Call.notices_cons, Call.notice_compose,
        List.append_assoc]

/-- All other diagnostics of a program are those it records by hand. -/
theorem noted_runAll {calls : List Call}
    (clean : ∀ note ∈ Call.notes calls, note.2.isCollision = false) (d : Draft) :
    (d.runAll calls).noted = d.noted ++ Call.notes calls := by
  rw [← Call.map_notices calls d.trail]
  exact (congrArg (List.map fun g => (g.level, g.finding)) (noticed_runAll clean d)).trans
    List.map_append

end Draft

end Directives
