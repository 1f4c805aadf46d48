/-
Registrations that are overwritten.

A registration takes the place of an earlier one of the same directive, wherever
the two stand. So what a program makes of some directives depends on no earlier
registration of those that it registers itself, and a registration that is made
again leaves a trace in the diagnostics and the lints only.

* `Draft.restrict`: the part of a draft that concerns some directives.
* `Draft.restrict_runAll`: what a program makes of that part.
* `Call.Omits`: a program without one of its registrations.
* `runAll_omits`: leaving out a registration that is made again.
-/
import Directives.Proofs.Draft.Collision
import Directives.Proofs.Store.Setters

namespace Directives

namespace Draft

/-! ### Parts of a draft -/

/-- The draft with those of its directives that are kept, without diagnostics and
lints. -/
def restrict (keep : Registration → Bool) (d : Draft) : Draft :=
  { d with
    rules := d.rules.restrict fun key => keep (.rule key)
    guidelines := d.guidelines.restrict fun key => keep (.guideline key)
    store := d.store.bare
    recorded := [] }

variable {keep keep' : Registration → Bool}

lemma restrict_restrict (h : ∀ x, keep' x = true → keep x = true) (d : Draft) :
    (d.restrict keep).restrict keep' = d.restrict keep' := by
  have hrules := d.rules.restrict_restrict fun key => h (.rule key)
  have hguidelines := d.guidelines.restrict_restrict fun key => h (.guideline key)
  simp only [restrict, hrules, hguidelines, Store.bare_bare]

/-- A reference leaves the directives as they are. -/
lemma restrict_reference (h : ∀ x, keep' x = true → keep x = true) (d : Draft) (name : Text) :
    ((d.restrict keep).reference name).2.restrict keep' = (d.reference name).2.restrict keep' := by
  have hrules := d.rules.restrict_restrict fun key => h (.rule key)
  have hguidelines := d.guidelines.restrict_restrict fun key => h (.guideline key)
  have hstore := d.store.bare_reference name
  simp only [reference, restrict, hrules, hguidelines, hstore]

/-- Drafts that are alike in all directives differ in diagnostics and lints only. -/
lemma eq_of_restrict_all {d e : Draft}
    (alike : d.restrict (fun _ => true) = e.restrict (fun _ => true)) :
    ∃ recorded lints, d = { e with recorded, store := { e.store with lints } } := by
  simp only [restrict, Registry.restrict_all, Draft.mk.injEq, Store.bare, Store.mk.injEq]
    at alike
  obtain ⟨hname, hpolicy, hrules, hguidelines, ⟨hbindings, -, hstamp⟩, -, htrail, hcomposed⟩ :=
    alike
  refine ⟨d.recorded, d.store.lints, ?_⟩
  simp only [← hname, ← hpolicy, ← hrules, ← hguidelines, ← hbindings, ← hstamp, ← htrail,
    ← hcomposed]

/-! ### One registration -/

/-- A registration renews its directive and leaves the others as they are. -/
lemma restrict_registration {call : Call} {r : Registration}
    (registers : call.registration? = some r)
    (h : ∀ x, keep' x = true → x = r ∨ keep x = true) (d : Draft) :
    ((d.restrict keep).run call).restrict keep' = (d.run call).restrict keep' := by
  cases call with
  | rule key setters =>
      cases registers
      obtain ⟨hitem, hstore⟩ := Rule.applyAll_bare setters { key } d.store
      have hkey : Keyed.key (Rule.applyAll { key } d.store setters).1 = key :=
        Rule.applyAll_key setters { key } d.store
      have renewed : ∀ k, keep' (.rule k) = true →
          k = Keyed.key (Rule.applyAll { key } d.store setters).1 ∨ keep (.rule k) = true :=
        fun k hk => by simpa [hkey] using h (.rule k) hk
      have others : ∀ k, keep' (.guideline k) = true → keep (.guideline k) = true :=
        fun k hk => by simpa using h (.guideline k) hk
      have hrules := Registry.restrict_insert (r := d.rules) renewed
      have hguidelines := d.guidelines.restrict_restrict others
      simp [run, addRule_eq, collide_eq, restrict, hitem, hstore, hrules, hguidelines]
  | guideline key setters =>
      cases registers
      obtain ⟨hitem, hstore⟩ := Guideline.applyAll_bare setters { key } d.store
      have hkey : Keyed.key (Guideline.applyAll { key } d.store setters).1 = key :=
        Guideline.applyAll_key setters { key } d.store
      have renewed : ∀ k, keep' (.guideline k) = true →
          k = Keyed.key (Guideline.applyAll { key } d.store setters).1
            ∨ keep (.guideline k) = true :=
        fun k hk => by simpa [hkey] using h (.guideline k) hk
      have others : ∀ k, keep' (.rule k) = true → keep (.rule k) = true :=
        fun k hk => by simpa using h (.rule k) hk
      have hguidelines := Registry.restrict_insert (r := d.guidelines) renewed
      have hrules := d.rules.restrict_restrict others
      simp [run, addGuideline_eq, collide_eq, restrict, hitem, hstore, hrules, hguidelines]
  | _ => simp [Call.registration?] at registers

/-- A registration makes no difference to other directives. -/
lemma restrict_run_of_dropped {call : Call} {r : Registration}
    (registers : call.registration? = some r) (dropped : keep r = false) (d : Draft) :
    (d.run call).restrict keep = d.restrict keep := by
  cases call with
  | rule key setters =>
      cases registers
      have hkey : Keyed.key (Rule.applyAll { key } d.store setters).1 = key :=
        Rule.applyAll_key setters { key } d.store
      have hdropped :
          keep (.rule (Keyed.key (Rule.applyAll { key } d.store setters).1)) = false := by
        rw [hkey, dropped]
      have hrules := Registry.restrict_insert_of_dropped (r := d.rules)
        (fun k => keep (.rule k)) hdropped
      obtain ⟨names, hnames⟩ := Rule.exists_addLints setters { key } d.store
      simp only [run, addRule_eq, collide_eq, restrict, hrules, hnames]
      rfl
  | guideline key setters =>
      cases registers
      have hkey : Keyed.key (Guideline.applyAll { key } d.store setters).1 = key :=
        Guideline.applyAll_key setters { key } d.store
      have hdropped :
          keep (.guideline (Keyed.key (Guideline.applyAll { key } d.store setters).1)) = false := by
        rw [hkey, dropped]
      have hguidelines := Registry.restrict_insert_of_dropped (r := d.guidelines)
        (fun k => keep (.guideline k)) hdropped
      obtain ⟨names, hnames⟩ := Guideline.exists_addLints setters { key } d.store
      simp only [run, addGuideline_eq, collide_eq, restrict, hguidelines, hnames]
      rfl
  | _ => simp [Call.registration?] at registers

/-! ### Whole programs -/

/-- The directives that a call registers, and those that are kept. -/
def keepAlso (call : Call) (keep : Registration → Bool) (x : Registration) : Bool :=
  decide (x ∈ Call.registrations [call]) || keep x

/-- What the rest of a program does not register is registered by its first call, or
kept. -/
lemma keepAlso_of_cons {call : Call} {rest : List Call}
    (h : ∀ x, keep' x = true → x ∈ Call.registrations (call :: rest) ∨ keep x = true)
    (x : Registration) (hx : keep' x = true) :
    x ∈ Call.registrations rest ∨ keepAlso call keep x = true := by
  have hx := h x hx
  rw [Call.registrations_cons, List.mem_append] at hx
  simp only [keepAlso, Bool.or_eq_true, decide_eq_true_eq]
  tauto

/-- What is the same after the first call of a program is the same after the
program. -/
lemma restrict_runAll_cons {call : Call} {rest : List Call} {d e : Draft}
    (onRest : ∀ d : Draft, ((d.restrict (keepAlso call keep)).runAll rest).restrict keep'
      = (d.runAll rest).restrict keep')
    (first : (d.run call).restrict (keepAlso call keep)
      = (e.run call).restrict (keepAlso call keep)) :
    (d.runAll (call :: rest)).restrict keep' = (e.runAll (call :: rest)).restrict keep' := by
  rw [runAll_cons, runAll_cons, ← onRest, first, onRest]

/-- **What a program makes of some directives** depends on what was there of those
among them that it does not register itself. -/
theorem restrict_runAll {calls : List Call}
    (h : ∀ x, keep' x = true → x ∈ Call.registrations calls ∨ keep x = true) (d : Draft) :
    ((d.restrict keep).runAll calls).restrict keep' = (d.runAll calls).restrict keep' := by
  -- Whatever is kept: the rest of a program keeps also what its first call registers.
  induction calls using Call.induction generalizing keep keep' d with
  | nil => exact restrict_restrict (fun x hx => (h x hx).resolve_left (by simp)) d
  | declare name description rest ih =>
      refine restrict_runAll_cons (ih (keepAlso_of_cons h)) ?_
      exact restrict_restrict (fun _ hx => hx) (d.declare name description).2
  | reference name rest ih =>
      refine restrict_runAll_cons (ih (keepAlso_of_cons h)) ?_
      exact restrict_reference (fun _ hx => hx) d name
  | rule key setters rest ih =>
      refine restrict_runAll_cons (ih (keepAlso_of_cons h))
        (restrict_registration (r := .rule key) rfl (fun x hx => ?_) d)
      simpa [keepAlso, Call.registrations, Call.registration?] using hx
  | guideline key setters rest ih =>
      refine restrict_runAll_cons (ih (keepAlso_of_cons h))
        (restrict_registration (r := .guideline key) rfl (fun x hx => ?_) d)
      simpa [keepAlso, Call.registrations, Call.registration?] using hx
  | record level finding rest ih =>
      refine restrict_runAll_cons (ih (keepAlso_of_cons h)) ?_
      exact restrict_restrict (fun _ hx => hx) d
  | compose library body rest ihBody ih =>
      refine restrict_runAll_cons (ih (keepAlso_of_cons h)) ?_
      have hbody : ∀ x, keepAlso (.compose library body) keep x = true →
          x ∈ Call.registrations body ∨ keep x = true :=
        fun x hx => by simpa [keepAlso] using hx
      exact congrArg leave (ihBody hbody (d.enter library))

end Draft

/-! ### Leaving out a registration -/

namespace Call

/-- `less` is the program `calls` without one of its registrations of `r`, which may
stand inside opened libraries, and `after` are the registrations made after that. -/
inductive Omits (r : Registration) : List Call → List Call → List Registration → Prop
  | here {call : Call} (registers : call.registration? = some r) (rest : List Call) :
      Omits r (call :: rest) rest (registrations rest)
  | later (call : Call) {rest less : List Call} {after : List Registration}
      (h : Omits r rest less after) : Omits r (call :: rest) (call :: less) after
  | inside (library : Text) {body less : List Call} {after : List Registration}
      (h : Omits r body less after) (rest : List Call) :
      Omits r (.compose library body :: rest) (.compose library less :: rest)
        (after ++ registrations rest)

end Call

open Draft

/-- A program without a registration makes the same of all other directives, and of
that one as well if it is registered again. -/
lemma Call.Omits.restrict_runAll {r : Registration} {calls less : List Call}
    {after : List Registration} (h : Call.Omits r calls less after) (d : Draft) :
    (d.runAll less).restrict (fun x => decide (x ≠ r ∨ r ∈ after))
      = (d.runAll calls).restrict (fun x => decide (x ≠ r ∨ r ∈ after)) := by
  induction h generalizing d with
  | @here call registers rest =>
      have hothers : ∀ x, decide (x ≠ r ∨ r ∈ Call.registrations rest) = true →
          x ∈ Call.registrations rest ∨ decide (x ≠ r) = true := by
        intro x hx
        by_cases hr : x = r
        · subst hr
          simpa using hx
        · exact .inr (by simpa using hr)
      have homitted : (d.run call).restrict (fun x => decide (x ≠ r))
          = d.restrict (fun x => decide (x ≠ r)) :=
        restrict_run_of_dropped registers (by simp) d
      rw [runAll_cons, ← Draft.restrict_runAll hothers (d.run call), homitted,
        Draft.restrict_runAll hothers]
  -- The call in front is the same in both programs.
  | later call h ih => exact ih (d.run call)
  | @inside library body less after h rest ih =>
      have hrest : ∀ x, decide (x ≠ r ∨ r ∈ after ++ Call.registrations rest) = true →
          x ∈ Call.registrations rest ∨ decide (x ≠ r ∨ r ∈ after) = true := by
        intro x hx
        by_cases hr : x = r
        · subst hr
          simpa [or_comm] using hx
        · exact .inr (by simp [hr])
      have hbody : (d.run (.compose library less)).restrict (fun x => decide (x ≠ r ∨ r ∈ after))
          = (d.run (.compose library body)).restrict (fun x => decide (x ≠ r ∨ r ∈ after)) :=
        congrArg leave (ih (d.enter library))
      rw [runAll_cons, runAll_cons, ← Draft.restrict_runAll hrest, hbody,
        Draft.restrict_runAll hrest]

/-- **A registration that is made again leaves no trace** but in the diagnostics and
the lints: without it and its setters, a program makes the same rules and the same
guidelines in the same order, the same declarations, and the same document. -/
theorem runAll_omits {r : Registration} {calls less : List Call} {after : List Registration}
    (omitted : Call.Omits r calls less after) (again : r ∈ after) (d : Draft) :
    (d.runAll less).rules = (d.runAll calls).rules
      ∧ (d.runAll less).guidelines = (d.runAll calls).guidelines
      ∧ (d.runAll less).store.bindings = (d.runAll calls).store.bindings
      ∧ (d.runAll less).document = (d.runAll calls).document
      ∧ ∃ recorded lints, d.runAll less = { d.runAll calls with
          recorded, store := { (d.runAll calls).store with lints } } := by
  have hall : (d.runAll less).restrict (fun _ => true)
      = (d.runAll calls).restrict (fun _ => true) := by
    simpa [again] using omitted.restrict_runAll d
  obtain ⟨recorded, lints, heq⟩ := Draft.eq_of_restrict_all hall
  rw [heq]
  exact ⟨rfl, rfl, rfl, rfl, recorded, lints, rfl⟩

/-- A rule of an opened library that is registered again after the library is closed
is left out, and the other registrations stay in their places. -/
theorem runAll_omits_library :
    let again : Call := .rule "brief" [.text "Write to {$TASK}."]
    let calls : List Call :=
      [.compose "house" [.rule "brief" [.text "Ask {$OWNER}."], .rule "tests" []],
        .declare "TASK" [], again]
    let less : List Call := [.compose "house" [.rule "tests" []], .declare "TASK" [], again]
    Call.Omits (.rule "brief") calls less [.rule "tests", .rule "brief"]
      ∧ Registration.rule "brief" ∈ [Registration.rule "tests", .rule "brief"]
      ∧ (Draft.runAll { name := "task" } less).rules.keys = ["tests", "brief"]
      ∧ (Draft.runAll { name := "task" } calls).rules.keys = ["tests", "brief"] := by
  intro again calls less
  have omitted : Call.Omits (.rule "brief") calls less [.rule "tests", .rule "brief"] :=
    .inside "house" (.here rfl _) _
  have hmem : Registration.rule "brief" ∈ [Registration.rule "tests", .rule "brief"] := by decide
  have hkeys : (Draft.runAll { name := "task" } less).rules.keys = ["tests", "brief"] := by decide
  refine ⟨omitted, hmem, hkeys, ?_⟩
  rw [← (runAll_omits omitted hmem { name := "task" }).1]
  exact hkeys

end Directives
