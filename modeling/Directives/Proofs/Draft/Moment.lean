/-
The points of a run, and what is known of the open libraries at each of them.

A program is run call by call, and the calls of a library between its opening and its
closing. The libraries around a point can be read off the program; the draft keeps its
own account of them, and so does its store. The two accounts agree with the program at
every point, so that whatever is written down there is written down under the right
libraries.

* `Call.compose_induction`: induction over programs, libraries against all other calls.
* `Draft.Moment`, `Draft.moments`: the points of a run, those inside libraries among
  them.
* `Draft.Under`: the draft and its store have the same libraries open.
* `Draft.Grows.accounts`: what a draft keeps at a point is what the points before added.
* `Draft.moments_traced`: the account of the open libraries is right at every point.
-/
import Directives.Proofs.Draft.Program
import Directives.Proofs.Store.Setters

namespace Directives

/-! ### Libraries against all other calls -/

namespace Call

/-- The call opens a library. -/
def opens : Call → Bool
  | compose _ _ => true
  | _ => false

/-- The induction principle of programs, with one case for all calls that open no
library. -/
@[elab_as_elim]
theorem compose_induction {P : List Call → Prop} (nil : P [])
    (atom : ∀ call rest, call.opens = false → P rest → P (call :: rest))
    (compose : ∀ library body rest, P body → P rest → P (.compose library body :: rest))
    (calls : List Call) : P calls := by
  induction calls using Call.induction with
  | nil => exact nil
  | declare name description rest ih => exact atom _ rest rfl ih
  | reference name rest ih => exact atom _ rest rfl ih
  | rule key setters rest ih => exact atom _ rest rfl ih
  | guideline key setters rest ih => exact atom _ rest rfl ih
  | record level finding rest ih => exact atom _ rest rfl ih
  | compose library body rest ihBody ih => exact compose library body rest ihBody ih

mutual

/-- The library a call opens and those opened inside, each with the libraries around it,
where `around` are the libraries around the call. -/
def path (around : List Text) : Call → List (List Text)
  | compose library body => (around ++ [library]) :: paths (around ++ [library]) body
  | _ => []

/-- The libraries a program opens, outer ones before those inside, each with the
libraries around it. -/
def paths (around : List Text) : List Call → List (List Text)
  | [] => []
  | call :: rest => path around call ++ paths around rest

end

lemma paths_atom {call : Call} (h : call.opens = false) (around : List Text)
    (rest : List Call) : paths around (call :: rest) = paths around rest := by
  cases call with
  | compose library body => simp [opens] at h
  | _ => rfl

lemma paths_compose (around : List Text) (library : Text) (body rest : List Call) :
    paths around (.compose library body :: rest)
      = (around ++ [library]) :: paths (around ++ [library]) body ++ paths around rest := rfl

end Call

namespace Draft

/-! ### The points of a run -/

/-- A point in the run of a program. -/
structure Moment where
  /-- The libraries around the point in the program, outermost first. -/
  around : List Text
  /-- The draft as it is then. -/
  draft : Draft
  /-- The call made next, if the program, or the body of the library, goes on. -/
  next : Option Call

namespace Moment

/-- The draft at the next point: the library of the next call is open, or the next call
was made. -/
def after (m : Moment) : Draft :=
  match m.next with
  | none => m.draft
  | some (.compose library _) => m.draft.enter library
  | some call => m.draft.run call

/-- What a list that drafts keep has at the next point and has not yet. -/
def adds {β : Type} (kept : Draft → List β) (m : Moment) : List β :=
  (kept m.after).drop (kept m.draft).length

/-- The library that is opened next, with those around it. -/
def opened? (m : Moment) : Option (List Text) :=
  match m.next with
  | some (.compose library _) => some (m.around ++ [library])
  | _ => none

lemma after_atom {call : Call} (h : call.opens = false) (around : List Text) (d : Draft) :
    after ⟨around, d, some call⟩ = d.run call := by
  cases call with
  | compose library body => simp [Call.opens] at h
  | _ => rfl

lemma opened?_atom {call : Call} (h : call.opens = false) (around : List Text) (d : Draft) :
    opened? ⟨around, d, some call⟩ = none := by
  cases call with
  | compose library body => simp [Call.opens] at h
  | _ => rfl

end Moment

mutual

/-- The points before and inside one call. -/
def momentsOf (around : List Text) (d : Draft) : Call → List Moment
  | .compose library body =>
      ⟨around, d, some (.compose library body)⟩
        :: moments (around ++ [library]) (d.enter library) body
  | call => [⟨around, d, some call⟩]

/-- The points of a program: before each of its calls, inside the libraries it opens,
and at its end. -/
def moments (around : List Text) (d : Draft) : List Call → List Moment
  | [] => [⟨around, d, none⟩]
  | call :: rest => momentsOf around d call ++ moments around (d.run call) rest

end

lemma moments_nil (around : List Text) (d : Draft) :
    d.moments around [] = [⟨around, d, none⟩] := rfl

lemma moments_atom {call : Call} (h : call.opens = false) (around : List Text) (d : Draft)
    (rest : List Call) :
    d.moments around (call :: rest)
      = ⟨around, d, some call⟩ :: (d.run call).moments around rest := by
  cases call with
  | compose library body => simp [Call.opens] at h
  | _ => rfl

lemma moments_compose (around : List Text) (d : Draft) (library : Text)
    (body rest : List Call) :
    d.moments around (.compose library body :: rest)
      = ⟨around, d, some (.compose library body)⟩
        :: ((d.enter library).moments (around ++ [library]) body
          ++ (d.run (.compose library body)).moments around rest) := rfl

/-- The last point of a run is its end. -/
lemma exists_moments_eq_concat (calls : List Call) (around : List Text) (d : Draft) :
    ∃ before, d.moments around calls = before ++ [⟨around, d.runAll calls, none⟩] := by
  induction calls generalizing d with
  | nil => exact ⟨[], rfl⟩
  | cons call rest ih =>
      obtain ⟨before, hbefore⟩ := ih (d.run call)
      refine ⟨d.momentsOf around call ++ before, ?_⟩
      rw [List.append_assoc, runAll_cons, ← hbefore]
      rfl

/-- The libraries opened at the points of a run are those the program opens. -/
lemma filterMap_opened?_moments (calls : List Call) (around : List Text) (d : Draft) :
    (d.moments around calls).filterMap Moment.opened? = Call.paths around calls := by
  induction calls using Call.compose_induction generalizing around d with
  | nil => rfl
  | atom call rest h ih =>
      rw [moments_atom h, List.filterMap_cons_none (Moment.opened?_atom h around d),
        Call.paths_atom h, ih]
  | compose library body rest ihBody ih =>
      have hopened : Moment.opened? ⟨around, d, some (.compose library body)⟩
          = some (around ++ [library]) := rfl
      rw [moments_compose, List.filterMap_cons_some hopened, List.filterMap_append, ihBody, ih,
        Call.paths_compose, List.cons_append]

/-- Around a point are the libraries around the whole program, or those of a library it
opens. -/
lemma around_of_mem_moments {calls : List Call} {around : List Text} {d : Draft} :
    ∀ m ∈ d.moments around calls, m.around = around ∨ m.around ∈ Call.paths around calls := by
  induction calls using Call.compose_induction generalizing around d with
  | nil => simp [moments_nil]
  | atom call rest h ih =>
      rw [moments_atom h, Call.paths_atom h, List.forall_mem_cons]
      exact ⟨.inl rfl, ih⟩
  | compose library body rest ihBody ih =>
      rw [moments_compose, List.forall_mem_cons, List.forall_mem_append, Call.paths_compose]
      refine ⟨.inl rfl, fun m hm => .inr ?_, fun m hm => (ih m hm).imp_right fun hpath => ?_⟩
      · rcases ihBody m hm with heq | hpath
        · exact heq ▸ List.mem_cons_self
        · exact List.mem_cons_of_mem _ (List.mem_append_left _ hpath)
      · exact List.mem_cons_of_mem _ (List.mem_append_right _ hpath)

/-! ### One call -/

/-- How a call that opens no library may change what is known of libraries: the open
ones stay, and what is written down is written down under them. -/
structure Stays (d e : Draft) : Prop where
  trail : e.trail = d.trail
  storeTrail : e.store.trail = d.store.trail
  composed : e.composed = d.composed
  recorded : ∃ new, e.recorded = d.recorded ++ new ∧ ∀ g ∈ new, g.via = d.trail
  lints : ∃ new, e.store.lints = d.store.lints ++ new ∧ ∀ lint ∈ new, lint.via = d.store.trail

/-- Dangling references are left under the libraries the store has open. -/
lemma exists_lints_addLints (s : Store) (names : List Text) :
    ∃ new, (s.addLints names).lints = s.lints ++ new ∧ ∀ lint ∈ new, lint.via = s.trail := by
  refine ⟨names.map s.lint, rfl, fun lint hlint => ?_⟩
  obtain ⟨name, -, rfl⟩ := List.mem_map.mp hlint
  rfl

/-- A collision is recorded under the open libraries, if it is recorded. -/
lemma exists_recorded_collide (d : Draft) (taken : Bool) (finding : Finding) :
    ∃ new, (d.collide taken finding).recorded = d.recorded ++ new
      ∧ ∀ g ∈ new, g.via = d.trail := by
  rw [collide_eq]
  refine ⟨_, rfl, fun g hg => ?_⟩
  cases taken with
  | false => simp at hg
  | true => cases h : d.policy.level? <;> simp_all

/-- A call that opens no library leaves the open ones as they are. -/
lemma stays_run {call : Call} (h : call.opens = false) (d : Draft) : d.Stays (d.run call) := by
  have nothing : ∀ {β : Type} (list : List β) (p : β → Prop),
      ∃ new, list = list ++ new ∧ ∀ x ∈ new, p x := fun list _ => ⟨[], by simp, by simp⟩
  cases call with
  | declare name description => exact ⟨rfl, rfl, rfl, nothing _ _, nothing _ _⟩
  | reference name =>
      obtain ⟨names, hnames⟩ : ∃ names, (d.store.reference name).2 = d.store.addLints names :=
        ⟨_, d.store.reference_snd name⟩
      have hrun : d.run (.reference name) = { d with store := d.store.addLints names } := by
        rw [← hnames]
        rfl
      rw [hrun]
      exact ⟨rfl, rfl, rfl, nothing _ _, exists_lints_addLints d.store names⟩
  | rule key setters =>
      obtain ⟨names, hnames⟩ := Rule.exists_addLints setters { key } d.store
      rw [run, addRule_eq, hnames]
      exact ⟨by rw [collide_eq], rfl, by rw [collide_eq],
        exists_recorded_collide d _ _, exists_lints_addLints d.store names⟩
  | guideline key setters =>
      obtain ⟨names, hnames⟩ := Guideline.exists_addLints setters { key } d.store
      rw [run, addGuideline_eq, hnames]
      exact ⟨by rw [collide_eq], rfl, by rw [collide_eq],
        exists_recorded_collide d _ _, exists_lints_addLints d.store names⟩
  | record level finding =>
      refine ⟨rfl, rfl, rfl, ⟨[⟨level, finding, d.trail⟩], rfl, ?_⟩, nothing _ _⟩
      simp
  | compose library body => simp [Call.opens] at h

/-! ### The open libraries -/

/-- The draft and its store both have these libraries open, outermost first. -/
structure Under (d : Draft) (around : List Text) : Prop where
  trail : d.trail = around
  store : d.store.trail = around

namespace Under

variable {d : Draft} {around : List Text}

lemma run_atom (h : d.Under around) {call : Call} (hopens : call.opens = false) :
    (d.run call).Under around :=
  ⟨(stays_run hopens d).trail.trans h.trail, (stays_run hopens d).storeTrail.trans h.store⟩

lemma enter (h : d.Under around) (library : Text) :
    (d.enter library).Under (around ++ [library]) := by
  have htrail : (d.enter library).trail = around ++ [library] := by rw [← h.trail]; rfl
  exact ⟨htrail, htrail⟩

lemma leave {library : Text} (h : d.Under (around ++ [library])) : d.leave.Under around := by
  have htrail : d.leave.trail = around := by
    show d.trail.dropLast = around
    rw [h.trail, List.dropLast_concat]
  exact ⟨htrail, htrail⟩

/-- A program closes the libraries it opens, and no others, in the store as well. -/
theorem runAll (h : d.Under around) (calls : List Call) : (d.runAll calls).Under around := by
  induction calls using Call.compose_induction generalizing d around with
  | nil => exact h
  | atom call rest hopens ih => exact ih (h.run_atom hopens)
  | compose library body rest ihBody ih => exact ih (ihBody (h.enter library)).leave

/-- **The open libraries are those around the point** in the program, at every point of
its run. -/
theorem moments (h : d.Under around) (calls : List Call) :
    ∀ m ∈ d.moments around calls, m.draft.Under m.around := by
  induction calls using Call.compose_induction generalizing d around with
  | nil => simpa [moments_nil] using h
  | atom call rest hopens ih =>
      rw [moments_atom hopens, List.forall_mem_cons]
      exact ⟨h, ih (h.run_atom hopens)⟩
  | compose library body rest ihBody ih =>
      rw [moments_compose, List.forall_mem_cons, List.forall_mem_append]
      exact ⟨h, ihBody (h.enter library), ih (h.runAll [.compose library body])⟩

end Under

/-! ### What a draft keeps -/

/-- A list that calls and opened libraries add to, and that a closed library leaves as it
is. -/
structure Grows {β : Type} (kept : Draft → List β) : Prop where
  after : ∀ m : Moment, kept m.draft <+: kept m.after
  leave : ∀ d : Draft, kept d.leave = kept d

/-- At each of these points the list is what stood at the start, and what the points
before it added. -/
def Accounts {β : Type} (kept : Draft → List β) (start : List β) (points : List Moment) : Prop :=
  ∀ before m after, points = before ++ m :: after →
    kept m.draft = start ++ before.flatMap (Moment.adds kept)

section Grows

variable {β : Type} {kept : Draft → List β}

lemma Grows.after_eq (h : Grows kept) (m : Moment) :
    kept m.after = kept m.draft ++ m.adds kept := by
  obtain ⟨new, hnew⟩ := h.after m
  rw [Moment.adds, ← hnew, List.drop_left]

lemma Accounts.cons {m : Moment} {points : List Moment}
    (h : Accounts kept (kept m.draft ++ m.adds kept) points) :
    Accounts kept (kept m.draft) (m :: points) := by
  intro before n after heq
  cases before with
  | nil =>
      obtain ⟨rfl, -⟩ := List.cons.inj heq
      simp
  | cons first before =>
      obtain ⟨rfl, hrest⟩ := List.cons.inj heq
      rw [h before n after hrest, List.flatMap_cons, List.append_assoc]

lemma Accounts.append {start : List β} {points more : List Moment}
    (h : Accounts kept start points)
    (hmore : Accounts kept (start ++ points.flatMap (Moment.adds kept)) more) :
    Accounts kept start (points ++ more) := by
  intro before n after heq
  rcases List.append_eq_append_iff.mp heq with ⟨middle, rfl, hrest⟩ | ⟨middle, rfl, hrest⟩
  · rw [hmore middle n after hrest, List.flatMap_append, List.append_assoc]
  · cases middle with
    | nil =>
        rw [List.nil_append] at hrest
        simpa using hmore [] n after hrest.symm
    | cons first middle =>
        obtain ⟨rfl, rfl⟩ := List.cons.inj hrest
        exact h before n _ rfl

/-- The end of a run has what all points of the run added. -/
lemma Accounts.runAll {around : List Text} {d : Draft} {calls : List Call}
    (h : Accounts kept (kept d) (d.moments around calls)) :
    kept (d.runAll calls)
      = kept d ++ (d.moments around calls).flatMap (Moment.adds kept) := by
  obtain ⟨before, hbefore⟩ := exists_moments_eq_concat calls around d
  have hend : Moment.adds kept ⟨around, d.runAll calls, none⟩ = [] := List.drop_length
  rw [h before _ [] hbefore, hbefore, List.flatMap_append, List.flatMap_singleton, hend,
    List.append_nil]

/-- **What a draft keeps at a point** is what it had at the start, and what the points
before added, in order; nothing is dropped or changed in between. -/
theorem Grows.accounts (h : Grows kept) (calls : List Call) (around : List Text) (d : Draft) :
    Accounts kept (kept d) (d.moments around calls) := by
  induction calls using Call.compose_induction generalizing around d with
  | nil =>
      refine Accounts.cons (m := ⟨around, d, none⟩) fun before n after heq => ?_
      simp at heq
  | atom call rest hopens ih =>
      rw [moments_atom hopens]
      refine Accounts.cons (m := ⟨around, d, some call⟩) ?_
      rw [← h.after_eq, Moment.after_atom hopens]
      exact ih around (d.run call)
  | compose library body rest ihBody ih =>
      rw [moments_compose]
      refine Accounts.cons (m := ⟨around, d, some (.compose library body)⟩) ?_
      have hbody := ihBody (around ++ [library]) (d.enter library)
      have hrun : kept (d.run (.compose library body)) = kept ((d.enter library).runAll body) :=
        h.leave _
      have hrest := ih around (d.run (.compose library body))
      rw [← h.after_eq]
      refine hbody.append ?_
      rwa [← hbody.runAll, ← hrun]

end Grows

/-! ### Recorded diagnostics, dangling references, opened libraries -/

/-- The next point: a library was opened, or a call was made that opens none. -/
lemma Moment.after_cases (m : Moment) :
    (∃ library body, m.next = some (.compose library body) ∧ m.after = m.draft.enter library)
      ∨ m.opened? = none ∧ m.draft.Stays m.after := by
  obtain ⟨around, d, next⟩ := m
  cases next with
  | none => exact .inr ⟨rfl, rfl, rfl, rfl, ⟨[], by simp [after], by simp⟩,
      ⟨[], by simp [after], by simp⟩⟩
  | some call =>
      cases hopens : call.opens with
      | false => exact .inr ⟨opened?_atom hopens around d, after_atom hopens around d ▸
          stays_run hopens d⟩
      | true =>
          cases call with
          | compose library body => exact .inl ⟨library, body, rfl, rfl⟩
          | _ => simp [Call.opens] at hopens

lemma grows_recorded : Grows Draft.recorded where
  after m := by
    obtain ⟨library, body, -, hafter⟩ | ⟨-, hstays⟩ := m.after_cases
    · exact ⟨[], by rw [hafter]; simp [enter]⟩
    · obtain ⟨new, hnew, -⟩ := hstays.recorded
      exact ⟨new, hnew.symm⟩
  leave _ := rfl

/-- The dangling references of a draft. -/
def lints (d : Draft) : List Lint := d.store.lints

lemma grows_lints : Grows lints where
  after m := by
    obtain ⟨library, body, -, hafter⟩ | ⟨-, hstays⟩ := m.after_cases
    · exact ⟨[], by rw [hafter]; simp [enter, lints]⟩
    · obtain ⟨new, hnew, -⟩ := hstays.lints
      exact ⟨new, hnew.symm⟩
  leave _ := rfl

lemma grows_composed : Grows Draft.composed where
  after m := by
    obtain ⟨library, body, -, hafter⟩ | ⟨-, hstays⟩ := m.after_cases
    · exact ⟨[_], by rw [hafter]; rfl⟩
    · exact ⟨[], by rw [hstays.composed, List.append_nil]⟩
  leave _ := rfl

namespace Moment

variable {m : Moment}

/-- What a list has that is new, when it has new entries behind the old ones. -/
lemma adds_eq {β : Type} {kept : Draft → List β} {new : List β}
    (h : kept m.after = kept m.draft ++ new) : m.adds kept = new := by
  rw [adds, h, List.drop_left]

/-- Diagnostics are recorded under the libraries around the point. -/
lemma via_of_mem_adds_recorded (h : m.draft.Under m.around) :
    ∀ g ∈ m.adds Draft.recorded, g.via = m.around := by
  obtain ⟨library, body, -, hafter⟩ | ⟨-, hstays⟩ := m.after_cases
  · have hnone : m.adds Draft.recorded = [] := adds_eq (by rw [hafter]; simp [enter])
    simp [hnone]
  · obtain ⟨new, hnew, hvia⟩ := hstays.recorded
    rw [adds_eq hnew, ← h.trail]
    exact hvia

/-- Dangling references are left under the libraries around the point. -/
lemma via_of_mem_adds_lints (h : m.draft.Under m.around) :
    ∀ lint ∈ m.adds Draft.lints, lint.via = m.around := by
  obtain ⟨library, body, -, hafter⟩ | ⟨-, hstays⟩ := m.after_cases
  · have hnone : m.adds Draft.lints = [] := adds_eq (by rw [hafter]; simp [enter, lints])
    simp [hnone]
  · obtain ⟨new, hnew, hvia⟩ := hstays.lints
    have hadds : m.adds Draft.lints = new := adds_eq hnew
    rw [hadds, ← h.store]
    exact hvia

/-- An opened library is listed with the libraries around it. -/
lemma adds_composed (h : m.draft.Under m.around) :
    m.adds Draft.composed = (m.opened?.map trailPath).toList := by
  obtain ⟨library, body, hnext, hafter⟩ | ⟨hopened, hstays⟩ := m.after_cases
  · have hcomposed : m.after.composed
        = m.draft.composed ++ [trailPath (m.draft.trail ++ [library])] := by
      rw [hafter]
      rfl
    rw [adds_eq hcomposed, opened?, hnext, h.trail]
    rfl
  · have hcomposed : m.after.composed = m.draft.composed ++ [] := by
      rw [hstays.composed, List.append_nil]
    rw [adds_eq hcomposed, hopened]
    rfl

/-- The opened libraries are listed as paths, in the order they are opened. -/
lemma flatMap_adds_composed {points : List Moment} (h : ∀ m ∈ points, m.draft.Under m.around) :
    points.flatMap (adds Draft.composed) = (points.filterMap opened?).map trailPath := by
  induction points with
  | nil => rfl
  | cons m points ih =>
      obtain ⟨hm, hpoints⟩ := List.forall_mem_cons.mp h
      rw [List.flatMap_cons, adds_composed hm, ih hpoints]
      cases hopened : m.opened? with
      | none => simp [hopened]
      | some path => simp [hopened]

end Moment

/-- **Open libraries are accounted for at every point** of the run of any program on an
empty draft, inside libraries at any depth as well. The draft and its store have those
libraries open that are around the point in the program. What the next call records and
leaves dangling is written down under them, nothing written down is dropped or changed
later, and the diagnostics of the whole run are made of it. The opened libraries are
listed as paths in the order of the program, outer ones before those inside. When a
library is closed, the libraries that were open before are open again. -/
theorem moments_traced (name : Text) (policy : CollisionPolicy) (calls : List Call) :
    let start : Draft := { name, policy }
    let points := start.moments [] calls
    let final := start.runAll calls
    (∀ m ∈ points, m.draft.trail = m.around ∧ m.draft.store.trail = m.around)
      ∧ (∀ m ∈ points, (∀ g ∈ m.adds Draft.recorded, g.via = m.around)
          ∧ ∀ lint ∈ m.adds Draft.lints, lint.via = m.around)
      ∧ (∀ before m after, points = before ++ m :: after →
          m.draft.recorded = before.flatMap (Moment.adds Draft.recorded)
            ∧ m.draft.store.lints = before.flatMap (Moment.adds Draft.lints)
            ∧ m.draft.composed = (before.filterMap Moment.opened?).map trailPath)
      ∧ (∃ before, points = before ++ [⟨[], final, none⟩])
      ∧ final.diagnostics
          = points.flatMap (Moment.adds Draft.recorded)
            ++ (points.flatMap (Moment.adds Draft.lints)).map lintWarning
      ∧ final.composed = (Call.paths [] calls).map trailPath
      ∧ ∀ m ∈ points, ∀ library body, m.next = some (.compose library body) →
          (m.draft.run (.compose library body)).trail = m.draft.trail
            ∧ (m.draft.run (.compose library body)).store.trail = m.draft.store.trail := by
  intro start points final
  have hunder : ∀ m ∈ points, m.draft.Under m.around :=
    Under.moments (d := start) ⟨rfl, rfl⟩ calls
  have hrecorded := grows_recorded.accounts calls [] start
  have hlints := grows_lints.accounts calls [] start
  have hcomposed := grows_composed.accounts calls [] start
  refine ⟨fun m hm => ⟨(hunder m hm).trail, (hunder m hm).store⟩,
    fun m hm => ⟨Moment.via_of_mem_adds_recorded (hunder m hm),
      Moment.via_of_mem_adds_lints (hunder m hm)⟩,
    ?_, exists_moments_eq_concat calls [] start, ?_, ?_, ?_⟩
  · intro before m after hsplit
    have hbefore : ∀ n ∈ before, n.draft.Under n.around := fun n hn =>
      hunder n (by rw [hsplit]; exact List.mem_append_left _ hn)
    refine ⟨hrecorded before m after hsplit, hlints before m after hsplit, ?_⟩
    rw [← Moment.flatMap_adds_composed hbefore]
    exact hcomposed before m after hsplit
  · have hlintsEnd : final.store.lints = points.flatMap (Moment.adds Draft.lints) := hlints.runAll
    have hrecordedEnd : final.recorded = points.flatMap (Moment.adds Draft.recorded) :=
      hrecorded.runAll
    rw [diagnostics, hrecordedEnd, hlintsEnd]
  · have hcomposedEnd : final.composed = points.flatMap (Moment.adds Draft.composed) :=
      hcomposed.runAll
    rw [hcomposedEnd, Moment.flatMap_adds_composed hunder, filterMap_opened?_moments]
  · intro m hm library body _
    have hclosed := (hunder m hm).runAll [.compose library body]
    exact ⟨hclosed.trail.trans (hunder m hm).trail.symm,
      hclosed.store.trans (hunder m hm).store.symm⟩

end Draft

end Directives
