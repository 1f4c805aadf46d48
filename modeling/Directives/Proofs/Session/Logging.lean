/-
What runs add to the log.

From one tree to the next events are added to a log when the file that its path leads to
holds their lines behind what it held, and nothing at all is changed where there are no
events. Rendering adds an event for each command that compiles, if no document is
written over the log, and linting adds one for each command. The clock is read for each
event, so the events of a run are stamped with one reading after another.

* `EventLog.Adds`: events are added to a log; `Adds.trans` for more events behind them.
* `Setting.stamped`: the events of a run, each with the reading whose turn it is.
* `RenderTask.event?`, `LintTask.event`: the event of a command, up to its stamp.
* `RenderTask.LeavesAll.adds`, `LintTask.LeavesFiles.adds`: what commands add.
* `RenderTask.run_adds`, `LintTask.run_adds`: what runs add.
* `EventLog.Adds.read`: a log that events were added to is read back.
-/
import Directives.Proofs.Event.Log
import Directives.Proofs.FileTree.Contents
import Directives.Proofs.Session.Delivery
import Directives.Proofs.Session.Lint

namespace Directives

/-! ### Added events -/

namespace EventLog

open FileTree (Grows)

variable {log : Path} {events more : List Event} {tree tree' tree'' : FileTree}

lemma held_makeDirectory (tree : FileTree) (file : Path) (place : FileTree.Place) :
    (makeDirectory tree file).1.held place = tree.held place := by
  unfold makeDirectory
  split
  · rfl
  · split_ifs
    · rfl
    · exact tree.held_createDirectories _ place

/-- An event is put behind what the file of a log holds. -/
lemma held_append {event : Event} (h : append tree log event = (tree', none)) :
    ∃ place, tree'.follow log = .ok place
      ∧ tree'.entry? place = some (.file ((tree.held place).append (record event))) := by
  have hgrows := updates_append h
  unfold append at h
  split at h
  · cases h
  · next made hmade =>
      split at h
      · cases h
      · next hadded =>
          obtain ⟨place, hfollow, hentry⟩ := FileTree.append_held hadded
          obtain rfl : _ = tree' := (Prod.mk.inj h).1
          have hheld := held_makeDirectory tree log place
          rw [hmade] at hheld
          rw [hheld] at hentry
          exact ⟨place, (FileTree.updates_append hadded).follow hfollow, hentry⟩

/-- From one tree to the next these events are added to the log. -/
structure Adds (log : Path) (events : List Event) (tree tree' : FileTree) : Prop where
  grows : Grows (fun _ => True) tree tree'
  idle : events = [] → tree' = tree
  found : events ≠ [] → ∃ place contents, tree'.follow log = .ok place
    ∧ tree'.entry? place = some (.file contents)
  held : ∀ place text, tree'.follow log = .ok place → tree.held place = .text text →
    tree'.held place = .text (text ++ content events)

namespace Adds

lemma refl (log : Path) (tree : FileTree) : Adds log [] tree tree where
  grows := Grows.refl tree
  idle _ := rfl
  found h := absurd rfl h
  held place text _ hheld := by
    rw [hheld, content, List.flatMap_nil, List.append_nil]

/-- **More events behind them** are added when both are added in turn. -/
theorem trans (h : Adds log events tree tree') (h' : Adds log more tree' tree'') :
    Adds log (events ++ more) tree tree'' := by
  by_cases hevents : events = []
  · obtain rfl := hevents
    obtain rfl := h.idle rfl
    exact h'
  · -- The log is there already, and its path leads to it still.
    obtain ⟨place, contents, hfollow, hentry⟩ := h.found hevents
    have hfollow' := h'.grows.follow hfollow
    refine ⟨h.grows.trans h'.grows, ?_, fun _ => ?_, ?_⟩
    · intro hnone
      exact absurd (List.append_eq_nil_iff.mp hnone).1 hevents
    · obtain hkept | ⟨-, -, contents', hkept⟩ := h'.grows.kept place _ hentry
      · exact ⟨place, contents, hfollow', hkept⟩
      · exact ⟨place, contents', hfollow', hkept⟩
    · intro other text hother hheld
      obtain rfl : place = other := Except.ok.inj (hfollow'.symm.trans hother)
      rw [content_append, ← List.append_assoc]
      exact h'.held place _ hother (h.held place text hfollow hheld)

/-- An event is added when it is logged behind a change that leaves what the log holds as
it is. -/
lemma of_append {event : Event} {changed : FileTree.Place → Prop}
    (grows : Grows changed tree tree')
    (same : ∀ place, tree''.follow log = .ok place → tree'.held place = tree.held place)
    (h : append tree' log event = (tree'', none)) : Adds log [event] tree tree'' := by
  obtain ⟨place, hfollow, hentry⟩ := held_append h
  have hgrows : Grows (fun _ => True) tree' tree'' := (updates_append h).mono fun _ _ => trivial
  refine ⟨(grows.mono fun _ _ => trivial).trans hgrows, by simp,
    fun _ => ⟨place, _, hfollow, hentry⟩, ?_⟩
  intro other text hother hheld
  obtain rfl : place = other := Except.ok.inj (hfollow.symm.trans hother)
  rw [FileTree.held_of_file hentry, same place hfollow, hheld, content_singleton]
  rfl

/-- **A log that events were added to is read back**, if nothing was where it is and the
line of each event is read back. -/
theorem read (h : Adds log events tree tree') (some : events ≠ [])
    (fresh : ∀ place, tree'.follow log = .ok place → tree.entry? place = none)
    (readable : ∀ event ∈ events, Event.parse? event.line = .some event) :
    EventLog.read tree' log = .ok events := by
  obtain ⟨place, contents, hfollow, hentry⟩ := h.found some
  have hheld := h.held place [] hfollow (FileTree.held_of_none (fresh place hfollow))
  rw [FileTree.held_of_file hentry, List.nil_append] at hheld
  have htext : tree'.readText log = .ok (content events) :=
    FileTree.readText_eq_ok_iff.mpr ⟨place, hfollow, by rw [hentry, hheld]⟩
  rw [EventLog.read, htext]
  exact readText_content log readable

end Adds

end EventLog

lemma Setting.exists_of_logPaths {setting : Setting} {log : Path}
    (one : setting.logPaths = [log]) :
    ∃ name, setting.config.eventsLog = some name ∧ setting.path name = log := by
  cases hlog : setting.config.eventsLog with
  | none => simp [logPaths, hlog] at one
  | some name => exact ⟨name, rfl, by simpa [logPaths, hlog] using one⟩

/-- With this log the event is put behind it. -/
lemma Session.Logged.append {setting : Setting} {event : Event} {tree tree' : FileTree}
    {log : Path} (one : setting.logPaths = [log]) (h : Logged setting event tree tree') :
    EventLog.append tree log event = (tree', none) := by
  obtain ⟨name, hname, rfl⟩ := Setting.exists_of_logPaths one
  exact (logged_iff_of_some hname).mp h

/-! ### The stamps of events -/

namespace Setting

/-- The events that a run logs, from a turn of the clock on: each has the next reading. -/
def stamped (setting : Setting) (turn : Nat) (events : List (Timestamp → Event)) : List Event :=
  (events.zipIdx turn).map fun (event, turn) => event (setting.clock.reading turn)

@[simp] lemma stamped_nil (setting : Setting) (turn : Nat) : setting.stamped turn [] = [] := rfl

@[simp] lemma stamped_singleton (setting : Setting) (turn : Nat) (event : Timestamp → Event) :
    setting.stamped turn [event] = [event (setting.clock.reading turn)] := rfl

/-- The readings for events behind others are those whose turn it is then. -/
lemma stamped_append (setting : Setting) (turn : Nat) (events more : List (Timestamp → Event)) :
    setting.stamped turn (events ++ more)
      = setting.stamped turn events ++ setting.stamped (turn + events.length) more := by
  rw [stamped, List.zipIdx_append, List.map_append]
  rfl

end Setting

/-! ### Rendering -/

namespace RenderTask

variable {task : RenderTask} {setting : Setting} {d : Definition} {turn : Nat}
  {tree tree' left : FileTree} {log : Path}

/-- The event of a command that compiles, with the numbers of its document. -/
def event? (setting : Setting) (d : Definition) (c : Text × Command) :
    Option (Timestamp → Event) :=
  match (d.draft c.1 c.2 setting.config.policy).compile with
  | .error _ => none
  | .ok document => some (setting.event .compile c.1 (details document))

/-- A command has the clock read for its event. -/
lemma readings_eq_length (setting : Setting) (d : Definition) (c : Text × Command) :
    readings setting d c = (event? setting d c).toList.length := by
  unfold readings event?
  cases (d.draft c.1 c.2 setting.config.policy).compile <;> rfl

/-- The commands that are asked for, none if the one that is asked for is not there. -/
def asked (task : RenderTask) (d : Definition) : List (Text × Command) :=
  (task.commands d).toOption.getD []

/-- The files that documents of commands are written to. -/
def documents (task : RenderTask) (setting : Setting) (d : Definition)
    (commands : List (Text × Command)) : List Path :=
  if task.print then []
  else commands.filterMap fun c =>
    match (d.draft c.1 c.2 setting.config.policy).compile with
    | .error _ => none
    | .ok _ => some (task.pathOf setting c.1)

lemma documents_cons (task : RenderTask) (setting : Setting) (d : Definition)
    (c : Text × Command) (rest : List (Text × Command)) :
    task.documents setting d (c :: rest)
      = task.documents setting d [c] ++ task.documents setting d rest := by
  unfold documents
  split_ifs
  · rfl
  · rw [← List.filterMap_append, List.singleton_append]

/-- Delivering a document leaves what other files hold as it is. -/
lemma Delivered.held {command text : Text} {place : FileTree.Place}
    (h : task.Delivered setting command text tree tree')
    (apart : task.print = false → tree'.follow (task.pathOf setting command) ≠ .ok place) :
    tree'.held place = tree.held place := by
  cases hprint : task.print with
  | true =>
      obtain rfl : tree' = tree := by simpa [Delivered, hprint] using h
      rfl
  | false =>
      have hdelivered := (delivered_iff_of_files hprint).mp h
      have hmade := tree.held_createDirectories (task.outputDirectory setting) place
      unfold writeDocument at hdelivered
      split at hdelivered
      · cases hdelivered
      · next made =>
          rw [made] at hmade
          split at hdelivered
          · cases hdelivered
          · next hwritten =>
              obtain rfl : _ = tree' := (Prod.mk.inj hdelivered).1
              rw [FileTree.held_write hwritten, hmade]
              exact fun hfollow =>
                apart hprint ((FileTree.updates_write hwritten).follow hfollow)

/-- **One command** adds its event, if its document is not written over the log. -/
theorem Leaves.adds {c : Text × Command} {changed : FileTree.Place → Prop}
    (one : setting.logPaths = [log]) (h : task.Leaves setting d turn c tree tree')
    (later : FileTree.Grows changed tree' left)
    (apart : ∀ path ∈ task.documents setting d [c], left.follow path ≠ left.follow log) :
    EventLog.Adds log (setting.stamped turn (event? setting d c).toList) tree tree' := by
  cases hcompile : (d.draft c.1 c.2 setting.config.policy).compile with
  | error failure =>
      rw [(leaves_iff_of_error hcompile).mp h]
      simpa [event?, hcompile] using EventLog.Adds.refl log tree
  | ok document =>
      obtain ⟨written, hdelivered, hlogged⟩ := (leaves_iff_of_ok hcompile).mp h
      have happend := hlogged.append one
      have hadds := EventLog.Adds.of_append hdelivered.updates (fun place hplace => ?_) happend
      · simpa [event?, hcompile] using hadds
      · refine hdelivered.held fun files hfollow => ?_
        refine apart (task.pathOf setting c.1) (by simp [documents, files, hcompile]) ?_
        rw [later.follow ((EventLog.updates_append happend).follow hfollow), later.follow hplace]

/-- **Commands in order** add the events of those that compile. -/
theorem LeavesAll.adds {commands : List (Text × Command)} (one : setting.logPaths = [log])
    (h : task.LeavesAll setting d turn commands tree left)
    (apart : ∀ path ∈ task.documents setting d commands, left.follow path ≠ left.follow log) :
    EventLog.Adds log (setting.stamped turn (commands.filterMap (event? setting d)))
      tree left := by
  induction h with
  | nil _ tree => exact EventLog.Adds.refl log tree
  | @cons turn c rest tree tree' tree'' first others ih =>
      rw [documents_cons, List.forall_mem_append] at apart
      have hevents : (c :: rest).filterMap (event? setting d)
          = (event? setting d c).toList ++ rest.filterMap (event? setting d) := by
        cases hevent : event? setting d c <;> simp [hevent]
      rw [hevents, Setting.stamped_append, ← readings_eq_length]
      exact (first.adds one others.updates apart.1).trans (ih apart.2)

lemma asked_of_ok {commands : List (Text × Command)} (h : task.commands d = .ok commands) :
    task.asked d = commands := by
  rw [asked, h]
  rfl

lemma asked_of_error {failure : Failure} (h : task.commands d = .error failure) :
    task.asked d = [] := by
  rw [asked, h]
  rfl

/-- **A run that renders** adds the events of the commands that are asked for. -/
theorem run_adds (one : setting.logPaths = [log])
    (loads : Definition.load tree (setting.path task.file) = .ok d)
    (undisturbed : ((task.run setting).finish tree).Undisturbed)
    (apart : let left := ((task.run setting).finish tree).world.tree
      ∀ path ∈ task.documents setting d (task.asked d), left.follow path ≠ left.follow log) :
    EventLog.Adds log (setting.stamped 0 ((task.asked d).filterMap (event? setting d)))
      tree ((task.run setting).finish tree).world.tree := by
  cases hasked : task.commands d with
  | ok commands =>
      obtain ⟨world, hfinish, -, -, hleaves⟩ := run_ensures loads hasked undisturbed
      rw [asked_of_ok hasked, hfinish, Session.ending_world] at apart ⊢
      exact hleaves.adds one apart
  | error failure =>
      -- The command that is asked for is not in the file, and the run ends before it starts.
      have hfinish : (task.run setting).finish tree
          = Session.ending (.error failure, { tree }) := by
        simp only [run, Session.finish_eq, Session.exec_bind, Session.exec_tree,
          Session.exec_ofExcept, loads, hasked]
      rw [asked_of_error hasked, hfinish]
      exact EventLog.Adds.refl log tree

end RenderTask

/-! ### Linting -/

namespace LintTask

variable {setting : Setting} {d : Definition} {turn : Nat} {tree tree' : FileTree} {log : Path}

/-- The event of a command, with the number of its diagnostics. -/
def event (setting : Setting) (file : Path) (d : Definition) (c : Text × Command) :
    Timestamp → Event :=
  setting.event .lint c.1 (details file (d.draft c.1 c.2 setting.config.policy).diagnostics)

/-- The commands of a file add an event each. -/
lemma LeavesAll.adds {file : Path} {commands : List (Text × Command)}
    (one : setting.logPaths = [log]) (h : LeavesAll setting file d turn commands tree tree') :
    EventLog.Adds log (setting.stamped turn (commands.map (event setting file d)))
      tree tree' := by
  induction h with
  | nil _ tree => exact EventLog.Adds.refl log tree
  | @cons turn c rest tree tree' tree'' first others ih =>
      have hstill : FileTree.Grows (fun _ => False) tree tree := FileTree.Grows.refl tree
      have hfirst : EventLog.Adds log
          [event setting file d c (setting.clock.reading turn)] tree tree' :=
        EventLog.Adds.of_append hstill (fun _ _ => rfl) (first.append one)
      exact hfirst.trans ih

/-- **Files in order** add an event for each of their commands. -/
theorem LeavesFiles.adds {loaded : List (Path × Definition)} (one : setting.logPaths = [log])
    (h : LeavesFiles setting turn loaded tree tree') :
    EventLog.Adds log
      (setting.stamped turn
        (loaded.flatMap fun (file, d) => d.commands.map (event setting file d)))
      tree tree' := by
  induction h with
  | nil _ tree => exact EventLog.Adds.refl log tree
  | cons first others ih =>
      rw [List.flatMap_cons, Setting.stamped_append, List.length_map]
      exact (first.adds one).trans ih

/-- **A run that lints** adds the events of all commands of its files. -/
theorem run_adds {task : LintTask} {loaded : List (Path × Definition)}
    (one : setting.logPaths = [log]) (loads : Loads setting { tree } task.files loaded)
    (undisturbed : ((task.run setting).finish tree).Undisturbed) :
    EventLog.Adds log
      (setting.stamped 0
        (loaded.flatMap fun (file, d) => d.commands.map (event setting file d)))
      tree ((task.run setting).finish tree).world.tree := by
  obtain ⟨world, hfinish, -, hleaves⟩ := run_ensures loads undisturbed
  rw [hfinish, Session.ending_world]
  exact hleaves.adds one

end LintTask

end Directives
