/-
When a command compiles.

Whether a command compiles is known before it is built: its steps must reach no
cycle and no unknown name, and unless the policy lets collisions pass no directive
may be registered twice.

* `Step.registrations`: the directives a step registers, where the includes of the
  definition's own libraries are written out.
* `Definition.Inlines.registrations`: a program registers what its steps, written
  out, register.
* `Draft.hasErrors_under`: the errors of a strict draft under another policy.
* `Definition.hasErrors_draft_iff`: when the draft of a command has errors.
* `compile_ok_iff`: when a command compiles, and what its document then reports.
-/
import Directives.Proofs.Definition.Inline
import Directives.Proofs.Definition.Policy
import Directives.Proofs.Draft.Notice

namespace Directives

/-! ### Registrations of steps -/

/-- The directives a step registers. An include registers those of the built-in
library it names. -/
def Step.registrations : Step → List Registration
  | .rule r => [.rule r.key]
  | .guideline g => [.guideline g.key]
  | .declare _ _ => []
  | .include name =>
      match Library.ofInclude? name with
      | some library => Call.registrations library.program
      | none => []

namespace Definition

variable {d : Definition}

lemma registrations_call {step : Step} (kept : d.taken? step = none) :
    Call.registrations [d.call [] step] = step.registrations := by
  cases step with
  | «include» name =>
      have hfile : d.fileLibrary? name = none := kept
      rw [call, if_neg List.not_mem_nil, included, hfile, Step.registrations]
      cases Library.ofInclude? name <;> simp [Call.registrations, Call.registration?]
  | _ => rfl

/-- The program of steps registers what the steps register once they are written
out. -/
theorem Inlines.registrations {steps flat : List Step} (h : d.Inlines steps flat)
    (acyclic : d.Acyclic steps) :
    Call.registrations (d.program [] steps) = flat.flatMap Step.registrations := by
  have hkept := h.taken?_eq_none
  rw [Call.registrations, h.atoms acyclic (by simp), ← Call.registrations]
  clear h acyclic
  induction flat with
  | nil => simp [program_nil]
  | cons step rest ih =>
      obtain ⟨hstep, hrest⟩ := List.forall_mem_cons.mp hkept
      rw [program_cons, Call.registrations_cons, registrations_call hstep, ih hrest,
        List.flatMap_cons]

end Definition

/-- The declarations of a command are no concern of what ignores declarations. -/
lemma Command.filterMap_program {α : Type} (command : Command) (d : Definition)
    {f : Call → Option α} (hf : ∀ name description, f (.declare name description) = none) :
    (Call.allAtoms (command.program d)).filterMap f
      = (Call.allAtoms (d.program [] command.steps)).filterMap f := by
  rw [Command.program, Call.allAtoms_append, List.filterMap_append]
  have hstore : (Call.allAtoms (command.store.map fun declaration =>
      .declare declaration.name declaration.description)).filterMap f = [] := by
    induction command.store with
    | nil => rfl
    | cons declaration rest ih => simpa [hf] using ih
  rw [hstore, List.nil_append]

lemma Command.registrations_program (command : Command) (d : Definition) :
    Call.registrations (command.program d) = Call.registrations (d.program [] command.steps) :=
  command.filterMap_program d fun _ _ => rfl

lemma Command.notes_program (command : Command) (d : Definition) :
    Call.notes (command.program d) = Call.notes (d.program [] command.steps) :=
  command.filterMap_program d fun _ _ => rfl

/-! ### Errors of a draft -/

/-- A strict error under a policy is an error again, if it is about no collision
or the policy is strict. -/
lemma Diagnostic.exists_under_iff {g : Diagnostic} (error : g.isError = true)
    (policy : CollisionPolicy) :
    (∃ g', g.under policy = some g' ∧ g'.isError = true)
      ↔ g.finding.isCollision = false ∨ policy = .error ∧ g.finding.isCollision = true := by
  cases h : g.finding.isCollision with
  | false => simpa [under, h] using error
  | true => cases policy <;> simp [under, h, CollisionPolicy.level?, isError]

/-- A strict draft of errors has errors under another policy when some of its
diagnostics is no collision, or some is one and the policy is strict as well. -/
lemma Draft.hasErrors_under {d : Draft} (errors : ∀ g ∈ d.recorded, g.isError = true)
    (policy : CollisionPolicy) :
    (d.under policy).hasErrors = true ↔ d.noted ≠ [] ∨ policy = .error ∧ d.collided ≠ [] := by
  have hany : (d.under policy).hasErrors = true
      ↔ ∃ g ∈ d.recorded, ∃ g', g.under policy = some g' ∧ g'.isError = true := by
    simp only [hasErrors, under, List.any_eq_true, List.mem_filterMap]
    constructor
    · rintro ⟨g', ⟨g, hg, hunder⟩, herror⟩
      exact ⟨g, hg, g', hunder, herror⟩
    · rintro ⟨g, hg, g', hunder, herror⟩
      exact ⟨g', ⟨g, hg, hunder⟩, herror⟩
  rw [hany, Ne, Ne, noted_eq_nil_iff, collided_eq_nil_iff]
  constructor
  · rintro ⟨g, hg, hunder⟩
    rcases (Diagnostic.exists_under_iff (errors g hg) policy).mp hunder with h | ⟨strict, h⟩
    · exact Or.inl fun hall => by simp [hall g hg] at h
    · exact Or.inr ⟨strict, fun hall => by simp [hall g hg] at h⟩
  · rintro (h | ⟨strict, h⟩)
    · obtain ⟨g, hg, hcollision⟩ := by simpa using h
      exact ⟨g, hg, (Diagnostic.exists_under_iff (errors g hg) policy).mpr (.inl hcollision)⟩
    · obtain ⟨g, hg, hcollision⟩ := by simpa using h
      exact ⟨g, hg,
        (Diagnostic.exists_under_iff (errors g hg) policy).mpr (.inr ⟨strict, hcollision⟩)⟩

namespace Definition

variable (d : Definition) (name : Text) (command : Command)

/-- The diagnostics of a strict draft that are no collisions are those about
includes. -/
lemma noted_draft :
    (d.draft name command .error).noted = Call.notes (d.program [] command.steps) := by
  have hnotes := command.notes_program_spec d
  rw [draft, Draft.noted_runAll (fun note hnote => (hnotes note hnote).2.1),
    command.notes_program]
  rfl

/-- The collisions of a strict draft are the repeated registrations. -/
lemma collided_draft :
    (d.draft name command .error).collided
      = Registration.repeated [] (Call.registrations (d.program [] command.steps)) := by
  have hnotes := command.notes_program_spec d
  rw [draft, Draft.collided_runAll (fun note hnote => (hnotes note hnote).2.1) rfl,
    command.registrations_program]
  rfl

/-- **When the draft of a command has errors**: some include of its program goes
wrong, or the policy is strict and a directive is registered twice. -/
theorem hasErrors_draft_iff (policy : CollisionPolicy) :
    (d.draft name command policy).hasErrors = true
      ↔ Call.notes (d.program [] command.steps) ≠ []
        ∨ policy = .error ∧ ¬ (Call.registrations (d.program [] command.steps)).Nodup := by
  rw [draft_under, Draft.hasErrors_under (d.isError_draft name command) policy, noted_draft,
    collided_draft, Ne, Ne, Registration.repeated_eq_nil_iff]
  simp

/-- A draft without errors whose policy records no warnings has recorded
nothing. -/
lemma recorded_draft_eq_nil {policy : CollisionPolicy}
    (h : (d.draft name command policy).hasErrors = false) (silent : policy ≠ .warn) :
    (d.draft name command policy).recorded = [] := by
  have hstrict := d.isError_draft name command
  have hall := mt (Draft.hasErrors_under hstrict policy).mpr (by rw [← draft_under]; simp [h])
  rw [not_or, not_not] at hall
  have hcollision := Draft.noted_eq_nil_iff.mp hall.1
  rw [draft_under, List.eq_nil_iff_forall_not_mem]
  intro g' hg'
  obtain ⟨g, hg, hunder⟩ := List.mem_filterMap.mp hg'
  cases policy with
  | error =>
      have hnone := hall.2
      simp only [true_and, not_not] at hnone
      have hfalse := Draft.collided_eq_nil_iff.mp hnone g hg
      simp [hcollision g hg] at hfalse
  | warn => exact silent rfl
  | overwrite => simp [Diagnostic.under, hcollision g hg, CollisionPolicy.level?] at hunder

end Definition

/-! ### Compiling -/

lemma Draft.compile_eq_ok_iff {d : Draft} {document : Document} :
    d.compile = .ok document
      ↔ d.hasErrors = false
        ∧ { name := d.name, text := d.document, diagnostics := d.diagnostics,
            ruleCount := d.rules.size, guidelineCount := d.guidelines.size } = document := by
  cases h : d.hasErrors <;> simp [compile, h]

/-- **When a command compiles.** A command compiles exactly when its steps reach no
cycle, they reach known names only, and the policy is not the one of errors or no
rule key and no guideline key is registered twice by the steps once they are
written out. Under a policy that records no warnings the document then reports
dangling references only. -/
theorem compile_ok_iff {d : Definition} {name : Text} {command : Command}
    (found : d.command? name = some command) (policy : CollisionPolicy) :
    ((∃ document, d.compile name policy = .ok document)
      ↔ d.Acyclic command.steps
        ∧ (∀ library, d.Reaches command.steps library → d.Knows library)
        ∧ (policy = .warn ∨ policy = .overwrite
          ∨ ∃ flat, d.Inlines command.steps flat ∧ (flat.flatMap Step.registrations).Nodup))
    ∧ ∀ document, d.compile name policy = .ok document → policy = .error ∨ policy = .overwrite →
        ∀ g ∈ document.diagnostics, g.finding.isUnresolved = true := by
  have hcompile : d.compile name policy = (d.draft name command policy).compile := by
    rw [Definition.compile, found]
  have herrors := d.hasErrors_draft_iff name command policy
  refine ⟨?_, ?_⟩
  · have hok : (∃ document, d.compile name policy = .ok document)
        ↔ (d.draft name command policy).hasErrors = false := by
      rw [hcompile]
      simp [Draft.compile_eq_ok_iff]
    rw [hok, ← Bool.not_eq_true, herrors, not_or, not_not, Definition.notes_program_eq_nil_iff,
      and_assoc]
    refine and_congr_right fun acyclic => and_congr_right fun _ => ?_
    obtain ⟨flat, hflat⟩ := acyclic.inlines
    have hregistrations := hflat.registrations acyclic
    have hnodup : (∃ flat, d.Inlines command.steps flat ∧ (flat.flatMap Step.registrations).Nodup)
        ↔ (Call.registrations (d.program [] command.steps)).Nodup := by
      rw [hregistrations]
      constructor
      · rintro ⟨other, hother, h⟩
        rwa [hflat.unique hother] at h
      · exact fun h => ⟨flat, hflat, h⟩
    rw [hnodup]
    cases policy <;> simp
  · intro document hdocument hpolicy g hg
    obtain ⟨hclean, rfl⟩ := Draft.compile_eq_ok_iff.mp (hcompile ▸ hdocument)
    have hrecorded := d.recorded_draft_eq_nil name command hclean
      (by rcases hpolicy with rfl | rfl <;> simp)
    simp only [Draft.diagnostics, hrecorded, List.nil_append, List.mem_map] at hg
    obtain ⟨lint, _, rfl⟩ := hg
    rfl

/-- The example compiles under the policy of errors. -/
theorem Definition.layered_compiles :
    layered.command? "task:validate" = some layeredTask
      ∧ ∃ document, layered.compile "task:validate" .error = .ok document := by
  have found : layered.command? "task:validate" = some layeredTask := rfl
  refine ⟨found, (compile_ok_iff found .error).1.mpr ⟨layered_acyclic, layered_knows, ?_⟩⟩
  exact .inr (.inr ⟨layeredFlat, layered_inlines, by decide⟩)

end Directives
