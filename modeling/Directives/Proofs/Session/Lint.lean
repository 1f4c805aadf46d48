/-
What linting does to the world.

* `LintTask.report`: the report of one command.
* `LintTask.lintCommands_ensures`: what the commands of a file ensure.
* `LintTask.Loads`: the definitions of files as a run comes to them.
* `LintTask.lintFiles_ensures`: what files in order ensure.
* `LintTask.run_ensures`: a run.
-/
import Directives.Proofs.Session.World

namespace Directives.LintTask

variable {setting : Setting} {d : Definition}

/-- The report of a command. -/
def report (setting : Setting) (file : Path) (d : Definition) (c : Text × Command) :
    CommandReport :=
  ⟨file, c.1, (d.draft c.1 c.2 setting.config.policy).diagnostics⟩

/-- What the commands of a file do to the files, from a turn of the clock on: an event is
logged about each, with the next reading. -/
inductive LeavesAll (setting : Setting) (file : Path) (d : Definition) :
    Nat → List (Text × Command) → FileTree → FileTree → Prop
  | nil (turn : Nat) (tree : FileTree) : LeavesAll setting file d turn [] tree tree
  | cons {turn : Nat} {c : Text × Command} {rest : List (Text × Command)}
      {tree tree' tree'' : FileTree}
      (first : Session.Logged setting
        (setting.event .lint c.1
          (details file (d.draft c.1 c.2 setting.config.policy).diagnostics)
          (setting.clock.reading turn)) tree tree')
      (others : LeavesAll setting file d (turn + 1) rest tree' tree'') :
      LeavesAll setting file d turn (c :: rest) tree tree''

/-- **The commands of a file** are reported one by one, with an event about each, and
nothing is printed before all are. -/
theorem lintCommands_ensures (file : Path) (commands : List (Text × Command)) (world : World) :
    (lintCommands setting file d commands).Ensures world fun reports after =>
      reports = commands.map (report setting file d)
        ∧ after.readings = world.readings + commands.length
        ∧ after.output = world.output ∧ after.warnings = world.warnings
        ∧ LeavesAll setting file d world.readings commands world.tree after.tree := by
  induction commands generalizing world with
  | nil => exact Session.ensures_pure ⟨rfl, rfl, rfl, rfl, .nil _ _⟩
  | cons c rest ih =>
      refine Session.Ensures.bind (Session.ensures_logEvent setting .lint c.1 _ world) ?_
      rintro _ _ ⟨tree, hlogged, rfl⟩
      refine Session.Ensures.bind (ih _) ?_
      rintro reports after ⟨rfl, hreadings, houtput, hwarnings, hleaves⟩
      refine Session.ensures_pure ⟨rfl, ?_, houtput, hwarnings, .cons hlogged hleaves⟩
      rw [List.length_cons, Nat.add_comm rest.length, ← Nat.add_assoc]
      exact hreadings

/-! ### Files in order -/

/-- The definitions of files as a run comes to them: those of the files before are linted
by then, and their events are logged. -/
inductive Loads (setting : Setting) : World → List Path → List (Path × Definition) → Prop
  | nil (world : World) : Loads setting world [] []
  | cons {world : World} {file : Path} {rest : List Path} {d : Definition}
      {loaded : List (Path × Definition)}
      (loads : Definition.load world.tree (setting.path file) = .ok d)
      (others : Loads setting ((lintCommands setting file d d.commands).exec world).2
        rest loaded) :
      Loads setting world (file :: rest) ((file, d) :: loaded)

/-- What files in order do to the files, from a turn of the clock on. -/
inductive LeavesFiles (setting : Setting) :
    Nat → List (Path × Definition) → FileTree → FileTree → Prop
  | nil (turn : Nat) (tree : FileTree) : LeavesFiles setting turn [] tree tree
  | cons {turn : Nat} {file : Path} {d : Definition} {loaded : List (Path × Definition)}
      {tree tree' tree'' : FileTree}
      (first : LeavesAll setting file d turn d.commands tree tree')
      (others : LeavesFiles setting (turn + d.commands.length) loaded tree' tree'') :
      LeavesFiles setting turn ((file, d) :: loaded) tree tree''

/-- The reports of all commands of definitions. -/
def reports (setting : Setting) (loaded : List (Path × Definition)) : List CommandReport :=
  loaded.flatMap fun (file, d) => d.commands.map (report setting file d)

/-- **Files in order** are linted one by one, and nothing is printed before all are. -/
theorem lintFiles_ensures {world : World} {files : List Path}
    {loaded : List (Path × Definition)} (loads : Loads setting world files loaded) :
    (lintFiles setting files).Ensures world fun reported after =>
      reported = reports setting loaded
        ∧ after.output = world.output ∧ after.warnings = world.warnings
        ∧ LeavesFiles setting world.readings loaded world.tree after.tree := by
  induction loads with
  | nil world => exact Session.ensures_pure ⟨rfl, rfl, rfl, .nil _ _⟩
  | @cons world file rest d loaded loads others ih =>
      have hexec : (lintFiles setting (file :: rest)).exec world
          = (lintCommands setting file d d.commands >>= fun reported => do
              return reported ++ (← lintFiles setting rest)).exec world := by
        simp only [lintFiles, Session.exec_bind, Session.exec_tree, Session.exec_ofExcept, loads]
      rw [Session.ensures_congr hexec]
      refine Session.Ensures.bind (lintCommands_ensures file d.commands world).exec ?_
      rintro _ between ⟨⟨rfl, hreadings, houtput, hwarnings, hleaves⟩, hexec⟩
      rw [hexec] at ih
      refine Session.Ensures.bind ih ?_
      rintro _ after ⟨rfl, houtput', hwarnings', hleaves'⟩
      rw [hreadings] at hleaves'
      exact Session.ensures_pure ⟨rfl, houtput'.trans houtput, hwarnings'.trans hwarnings,
        .cons hleaves hleaves'⟩

/-- **A run** that the file system does not fail reports the commands of all files, and
ends by the reports. -/
theorem run_ensures {task : LintTask} {tree : FileTree} {loaded : List (Path × Definition)}
    (loads : Loads setting { tree } task.files loaded)
    (undisturbed : ((task.run setting).finish tree).Undisturbed) :
    ∃ world, (task.run setting).finish tree
        = Session.ending (conclude setting.config (reports setting loaded), world)
      ∧ world.output = task.text (reports setting loaded)
      ∧ LeavesFiles setting 0 loaded tree world.tree := by
  have hrun : (task.run setting).finish tree
      = (lintFiles setting task.files >>= fun reported => do
          Session.print (task.text reported)
          Session.ofExcept (conclude setting.config reported)).finish tree := rfl
  rw [hrun] at undisturbed ⊢
  obtain ⟨reported, world, ⟨rfl, houtput, -, hleaves⟩, hfinish⟩ :=
    (lintFiles_ensures loads).finish_bind undisturbed
  rw [Session.exec_bind, Session.exec_print] at hfinish
  simp only [Session.exec_ofExcept, houtput, List.nil_append] at hfinish
  exact ⟨_, hfinish, rfl, hleaves⟩

/-- A run on one file. -/
lemma loads_singleton {tree : FileTree} {file : Path}
    (loads : Definition.load tree (setting.path file) = .ok d) :
    Loads setting { tree } [file] [(file, d)] := .cons loads (.nil _)

lemma reports_singleton (file : Path) (d : Definition) :
    reports setting [(file, d)] = d.commands.map (report setting file d) := by
  simp [reports]

/-- The failures that a run ends with because of its reports are none of the file
system. -/
lemma undisturbed_conclude (config : Config) (reports : List CommandReport) (world : World) :
    (Session.ending (conclude config reports, world)).Undisturbed := by
  unfold conclude
  dsimp only
  split_ifs <;> rfl

end Directives.LintTask
