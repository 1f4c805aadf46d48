/-
What rendering does to the world.

Each command is compiled on its own, whatever became of the others. What it warns
about, what it prints and what it does to the files is put behind what the commands
before it left.

* `RenderTask.complaint`, `RenderTask.delivery`: what one command warns about and
  prints.
* `RenderTask.readings`: how often a command has the clock read.
* `RenderTask.Leaves`, `RenderTask.LeavesAll`: what commands do to the files.
* `Definition.outcome`: what becomes of a command.
* `RenderTask.renderAll_ensures`: what commands in order ensure.
* `RenderTask.run_ensures`: a run.
* `Definition.alike`: an example, whose first two commands have one file name.
-/
import Directives.Proofs.Session.World

namespace Directives

/-- A file is loaded in stages: its text is cut into tokens, the tokens make a node, the
node holds a datum, and the datum is a definition. -/
lemma Definition.load_of_stages {tree : FileTree} {file : Path} {text : Text} {d : Definition}
    {tokens : List Yaml.Token} {node : Yaml.Node Text} {datum : Datum}
    (hread : tree.readText file = .ok text) (hblank : text.isBlankText = false)
    (htokens : (Yaml.prepare? text >>= Yaml.tokens?) = some tokens)
    (hnode : Yaml.ofTokens? tokens = some node)
    (hdatum : (Yaml.link? node >>= fun linked => linked.read? shape) = some datum)
    (hdefinition : ofDatum? datum = some d) : load tree file = .ok d := by
  obtain ⟨prepared, hprepared, hcut⟩ := Option.bind_eq_some_iff.mp htokens
  have hyaml : ofYaml? text = some d := by
    simp only [ofYaml?, hblank, Yaml.datum?, Yaml.document?, hprepared, hcut, hnode,
      Option.bind_eq_bind, Option.bind_some, Bool.false_eq_true, if_false]
    rw [Option.bind_eq_bind] at hdatum
    rw [hdatum, Option.bind_some, hdefinition]
  simp only [load, hread, hyaml]

/-- A draft without errors compiles to its document. -/
lemma Draft.exists_compile_ok {d : Draft} (h : d.hasErrors = false) :
    ∃ document, d.compile = .ok document ∧ document.text = d.document := by
  simp [compile, h]

/-- A draft with errors does not compile. -/
lemma Draft.exists_compile_error {d : Draft} (h : d.hasErrors = true) :
    ∃ failure, d.compile = .error failure := by
  simp [compile, h]

/-- What becomes of a command. -/
def Definition.outcome (d : Definition) (policy : CollisionPolicy) (c : Text × Command) :
    RenderTask.Outcome :=
  match (d.draft c.1 c.2 policy).compile with
  | .error _ => .failed
  | .ok document => if document.unresolvedCount = 0 then .clean else .unresolved

namespace RenderTask

/-- What a command warns about: why it does not compile, or the diagnostics of its
document. -/
def complaint (setting : Setting) (d : Definition) (c : Text × Command) : Text :=
  match (d.draft c.1 c.2 setting.config.policy).compile with
  | .error failure => failure.message ++ ['\n']
  | .ok document =>
      document.diagnostics.flatMap fun diagnostic =>
        c.1 ++ (": " : Text) ++ diagnostic.line ++ ['\n']

/-- The file that a command is written to. -/
def pathOf (task : RenderTask) (setting : Setting) (command : Text) : Path :=
  documentPath (task.outputDirectory setting) setting.config.outputExtension command

/-- What is printed about a command that compiles: its document, or the file that it
was written to. -/
def delivery (task : RenderTask) (setting : Setting) (d : Definition) (c : Text × Command) :
    Text :=
  match (d.draft c.1 c.2 setting.config.policy).compile with
  | .error _ => []
  | .ok document =>
      if task.print then document.text
      else ("Rendered " : Text) ++ c.1 ++ " -> " ++ task.pathOf setting c.1 ++ ['\n']

/-- The files after a document was delivered: it is written, unless documents are
printed. -/
def Delivered (task : RenderTask) (setting : Setting) (command text : Text)
    (tree tree' : FileTree) : Prop :=
  if task.print then tree' = tree
  else writeDocument (task.outputDirectory setting) (task.pathOf setting command) text tree
    = (tree', none)

/-- How often a command has the clock read: once for its event, if it compiles. -/
def readings (setting : Setting) (d : Definition) (c : Text × Command) : Nat :=
  match (d.draft c.1 c.2 setting.config.policy).compile with
  | .error _ => 0
  | .ok _ => 1

/-- What a command does to the files: its document is delivered, and an event is logged
with the reading of the clock whose turn it is. -/
def Leaves (task : RenderTask) (setting : Setting) (d : Definition) (turn : Nat)
    (c : Text × Command) (tree tree' : FileTree) : Prop :=
  match (d.draft c.1 c.2 setting.config.policy).compile with
  | .error _ => tree' = tree
  | .ok document => ∃ written, task.Delivered setting c.1 document.text tree written
      ∧ Session.Logged setting
        (setting.event .compile c.1 (details document) (setting.clock.reading turn)) written tree'

lemma delivered_iff_of_files {task : RenderTask} {setting : Setting} {command text : Text}
    {tree tree' : FileTree} (files : task.print = false) :
    task.Delivered setting command text tree tree'
      ↔ writeDocument (task.outputDirectory setting) (task.pathOf setting command) text tree
        = (tree', none) := by
  simp [Delivered, files]

lemma leaves_iff_of_error {task : RenderTask} {setting : Setting} {d : Definition} {turn : Nat}
    {c : Text × Command} {tree tree' : FileTree} {failure : Failure}
    (fails : (d.draft c.1 c.2 setting.config.policy).compile = .error failure) :
    task.Leaves setting d turn c tree tree' ↔ tree' = tree := by
  simp [Leaves, fails]

lemma leaves_iff_of_ok {task : RenderTask} {setting : Setting} {d : Definition} {turn : Nat}
    {c : Text × Command} {tree tree' : FileTree} {document : Document}
    (compiles : (d.draft c.1 c.2 setting.config.policy).compile = .ok document) :
    task.Leaves setting d turn c tree tree'
      ↔ ∃ written, task.Delivered setting c.1 document.text tree written
        ∧ Session.Logged setting
          (setting.event .compile c.1 (details document) (setting.clock.reading turn))
          written tree' := by
  simp [Leaves, compiles]

/-- What commands in order do to the files, from a turn of the clock on. -/
inductive LeavesAll (task : RenderTask) (setting : Setting) (d : Definition) :
    Nat → List (Text × Command) → FileTree → FileTree → Prop
  | nil (turn : Nat) (tree : FileTree) : LeavesAll task setting d turn [] tree tree
  | cons {turn : Nat} {c : Text × Command} {rest : List (Text × Command)}
      {tree tree' tree'' : FileTree} (first : task.Leaves setting d turn c tree tree')
      (others : LeavesAll task setting d (turn + readings setting d c) rest tree' tree'') :
      LeavesAll task setting d turn (c :: rest) tree tree''

variable {task : RenderTask} {setting : Setting} {d : Definition}

/-- The failures of writing a document are failures of the file system. -/
lemma fault?_writeDocument {directory path : Path} {text : Text} {tree : FileTree}
    {failure : Failure} (h : (writeDocument directory path text tree).2 = some failure) :
    failure.fault?.isSome := by
  unfold writeDocument at h
  split at h
  · obtain rfl := Option.some.inj h
    rfl
  · split at h
    · obtain rfl := Option.some.inj h
      rfl
    · simp at h

/-- A document is printed, or written and its file named. The clock is not read for it. -/
lemma deliver_ensures (command text : Text) (world : World) :
    (task.deliver setting command text).Ensures world fun _ after =>
      after.readings = world.readings ∧ after.warnings = world.warnings
        ∧ after.output = world.output ++ (if task.print then text
          else ("Rendered " : Text) ++ command ++ " -> " ++ task.pathOf setting command ++ ['\n'])
        ∧ task.Delivered setting command text world.tree after.tree := by
  cases hprint : task.print with
  | true =>
      simp only [deliver, Delivered, hprint, if_true]
      exact Session.ensures_print ⟨rfl, rfl, rfl, rfl⟩
  | false =>
      simp only [deliver, delivered_iff_of_files hprint, hprint, Bool.false_eq_true, if_false]
      refine Session.Ensures.bind (Session.ensures_change fun failure => fault?_writeDocument) ?_
      rintro _ _ ⟨tree, htree, rfl⟩
      exact Session.ensures_print ⟨rfl, rfl, rfl, htree⟩

/-- **One command** is compiled, complains, delivers its document and leaves its
files, whatever the world was. -/
theorem renderOne_ensures (c : Text × Command) (world : World) :
    (task.renderOne setting d c.1 c.2).Ensures world fun outcome after =>
      outcome = d.outcome setting.config.policy c
        ∧ after.readings = world.readings + readings setting d c
        ∧ after.warnings = world.warnings ++ complaint setting d c
        ∧ after.output = world.output ++ task.delivery setting d c
        ∧ task.Leaves setting d world.readings c world.tree after.tree := by
  cases hcompile : (d.draft c.1 c.2 setting.config.policy).compile with
  | error failure =>
      simp only [renderOne, Definition.outcome, readings, complaint, delivery,
        leaves_iff_of_error hcompile, hcompile]
      refine Session.Ensures.bind (Session.ensures_warn _ world) ?_
      rintro _ _ rfl
      exact Session.ensures_pure ⟨rfl, rfl, rfl, (List.append_nil _).symm, rfl⟩
  | ok document =>
      simp only [renderOne, Definition.outcome, readings, complaint, delivery,
        leaves_iff_of_ok hcompile, hcompile]
      refine Session.Ensures.bind (Session.ensures_warn _ world) ?_
      rintro _ _ rfl
      refine Session.Ensures.bind (deliver_ensures c.1 document.text _) ?_
      rintro _ delivered ⟨hreadings, hwarnings, houtput, htree⟩
      refine Session.Ensures.bind
        (Session.ensures_logEvent setting .compile c.1 (details document) delivered) ?_
      rintro _ _ ⟨tree, hlogged, rfl⟩
      rw [hreadings] at hlogged
      exact Session.ensures_pure ⟨rfl, congrArg Nat.succ hreadings, hwarnings, houtput,
        delivered.tree, htree, hlogged⟩

/-- **Commands in order** are compiled one by one. None of them stops those after it,
and what each leaves is put behind what those before it left. -/
theorem renderAll_ensures (commands : List (Text × Command)) (world : World) :
    (task.renderAll setting d commands).Ensures world fun results after =>
      results = commands.map (fun c => (c.1, d.outcome setting.config.policy c))
        ∧ after.warnings = world.warnings ++ commands.flatMap (complaint setting d)
        ∧ after.output = world.output ++ commands.flatMap (task.delivery setting d)
        ∧ task.LeavesAll setting d world.readings commands world.tree after.tree := by
  induction commands generalizing world with
  | nil => exact Session.ensures_pure ⟨rfl, by simp, by simp, .nil _ _⟩
  | cons c rest ih =>
      refine Session.Ensures.bind (renderOne_ensures c world) ?_
      rintro outcome first ⟨rfl, hreadings, hwarnings, houtput, htree⟩
      refine Session.Ensures.bind (ih first) ?_
      rintro results after ⟨rfl, hwarnings', houtput', htree'⟩
      rw [hreadings] at htree'
      refine Session.ensures_pure ⟨rfl, ?_, ?_, .cons htree htree'⟩
      · rw [hwarnings', hwarnings, List.flatMap_cons, List.append_assoc]
      · rw [houtput', houtput, List.flatMap_cons, List.append_assoc]

/-- **A run** that the file system does not fail compiles the commands that are asked
for, and ends by what became of them. -/
theorem run_ensures {tree : FileTree} {commands : List (Text × Command)}
    (loads : Definition.load tree (setting.path task.file) = .ok d)
    (asked : task.commands d = .ok commands)
    (undisturbed : ((task.run setting).finish tree).Undisturbed) :
    ∃ world, (task.run setting).finish tree
        = Session.ending (conclude setting.config
            (commands.map fun c => (c.1, d.outcome setting.config.policy c)), world)
      ∧ world.warnings = commands.flatMap (complaint setting d)
      ∧ (commands ≠ [] → world.output = commands.flatMap (task.delivery setting d))
      ∧ task.LeavesAll setting d 0 commands tree world.tree := by
  -- Without commands the run prints that there are none, and succeeds.
  by_cases hempty : commands = []
  · subst hempty
    have hrun : ∃ output, (task.run setting).finish tree
        = Session.ending (.ok (), { tree, output }) := by
      simp only [run, Session.finish_eq, Session.exec_bind, Session.exec_tree,
        Session.exec_ofExcept, loads, asked, List.isEmpty_nil, if_true, Session.exec_print]
      exact ⟨_, rfl⟩
    obtain ⟨output, hrun⟩ := hrun
    have hconclude : conclude setting.config [] = .ok () := by
      simp [conclude, withOutcome]
    exact ⟨{ tree, output }, hrun.trans (by rw [List.map_nil, hconclude]), rfl,
      fun h => absurd rfl h, .nil 0 tree⟩
  · have hrun : (task.run setting).finish tree = (task.renderAll setting d commands >>=
        fun results => Session.ofExcept (conclude setting.config results)).finish tree := by
      simp only [run, Session.finish_eq, Session.exec_bind, Session.exec_tree,
        Session.exec_ofExcept, loads, asked, List.isEmpty_iff, hempty, if_false]
    rw [hrun] at undisturbed ⊢
    obtain ⟨results, world, ⟨rfl, hwarnings, houtput, htree⟩, hfinish⟩ :=
      (renderAll_ensures commands { tree }).finish_bind undisturbed
    rw [Session.exec_ofExcept] at hfinish
    exact ⟨world, hfinish, hwarnings, fun _ => houtput, htree⟩

/-- The failures that a run ends with because of its commands are none of the file
system. -/
lemma undisturbed_conclude (config : Config) (results : List (Text × Outcome)) (world : World) :
    (Session.ending (conclude config results, world)).Undisturbed := by
  unfold conclude
  dsimp only
  split_ifs <;> rfl

end RenderTask

/-! ### An example -/

/-- A rule with a dangling reference. -/
def danglingCommand : Command where
  steps := [.rule { key := "y", text := .one "{$Z}" }]

/-- A library that is not there. -/
def lostCommand : Command where
  steps := [.include "x"]

/-- Four commands: the first two have one file name, and the third has an error. -/
def Definition.alike : Definition where
  commands := [("a-b", danglingCommand), ("a:b", {}), ("c", lostCommand), ("d", {})]

/-- The file of the example. -/
def alikeText : Text :=
  ("commands:\n a-b:\n  steps:\n  - rule: y\n    text: '{$Z}'\n" : Text)
    ++ " a:b: {}\n c:\n  steps:\n  - include: x\n d: {}\n"

/-- How the file is cut into tokens. -/
def alikeTokens : List Yaml.Token :=
  [.blockMap, .key, .scalar .plain "commands", .value,
    .blockMap, .key, .scalar .plain "a-b", .value,
      .blockMap, .key, .scalar .plain "steps", .value,
        .entry, .blockMap, .key, .scalar .plain "rule", .value, .scalar .plain "y",
          .key, .scalar .plain "text", .value, .scalar .other "{$Z}", .blockEnd, .blockEnd,
      .key, .scalar .plain "a:b", .value, .flowMapStart, .flowMapEnd,
      .key, .scalar .plain "c", .value,
      .blockMap, .key, .scalar .plain "steps", .value,
        .entry, .blockMap, .key, .scalar .plain "include", .value, .scalar .plain "x",
        .blockEnd, .blockEnd,
      .key, .scalar .plain "d", .value, .flowMapStart, .flowMapEnd, .blockEnd, .blockEnd]

/-- What the tokens make. -/
def alikeNode : Yaml.Node Text :=
  .map none [(.scalar none .plain "commands", .map none
    [(.scalar none .plain "a-b", .map none [(.scalar none .plain "steps", .list none
       [.map none [(.scalar none .plain "rule", .scalar none .plain "y"),
         (.scalar none .plain "text", .scalar none .other "{$Z}")]])]),
     (.scalar none .plain "a:b", .map none []),
     (.scalar none .plain "c", .map none [(.scalar none .plain "steps", .list none
       [.map none [(.scalar none .plain "include", .scalar none .plain "x")]])]),
     (.scalar none .plain "d", .map none [])])]

/-- What the file says. -/
def alikeDatum : Datum :=
  .map [(.text "commands", .map
    [(.text "a-b", .map [(.text "steps", .list
       [.map [(.text "rule", .text "y"), (.text "text", .text "{$Z}")]])]),
     (.text "a:b", .map []),
     (.text "c", .map [(.text "steps", .list [.map [(.text "include", .text "x")]])]),
     (.text "d", .map [])])]

/-- The tree of the example: the file alone, in its directory. -/
def alikeTree : FileTree where
  entries := [(["w"], .directory), (["w", "f"], .file (.text alikeText))]

/-- The file of the example is loaded. -/
lemma Definition.load_alike : load alikeTree "/w/f" = .ok alike := by
  have hread : alikeTree.readText "/w/f" = .ok alikeText := by cbv
  have htokens : (Yaml.prepare? alikeText >>= Yaml.tokens?) = some alikeTokens := by
    decide +kernel
  have hnode : Yaml.ofTokens? alikeTokens = some alikeNode := by cbv
  have hdatum : (Yaml.link? alikeNode >>= fun linked => linked.read? shape)
      = some alikeDatum := rfl
  have hdefinition : ofDatum? alikeDatum = some alike := by cbv
  exact load_of_stages hread rfl htokens hnode hdatum hdefinition

lemma Definition.alike_commands : alike.commands
    = [(("a-b" : Text), danglingCommand), (("a:b" : Text), {}), (("c" : Text), lostCommand),
      (("d" : Text), {})] := rfl

namespace RenderTask

/-- The task of the example: all commands of the file are written to documents. -/
def alike : RenderTask := { file := "f" }

/-- The setting of the example: dangling references are not let pass, there is no log, and
the clock stands still. -/
def alikeSetting : Setting where
  config := { failOnUnresolved := true }
  directory := "/w"
  actor := "me"
  clock := (⟨0, 0⟩ : Timestamp)

/-- The tree with documents in the directory for them. -/
def alikeLeft (documents : List (Text × Text)) : FileTree where
  entries := alikeTree.entries ++ ((["w", "out"] : FileTree.Place), .directory) ::
    documents.map fun (name, text) => ([("w" : Text), "out", name], .file (.text text))

/-- The run on the example: the second document is written over the first. -/
lemma finish_alike : ∃ second fourth : Document,
    (Definition.alike.draft "a:b" {} .error).compile = .ok second
      ∧ ((alike.run alikeSetting).finish alikeTree).Undisturbed
      ∧ ((alike.run alikeSetting).finish alikeTree).world.tree
        = alikeLeft [("a-b.md", second.text), ("d.md", fourth.text)] := by
  have written : ∀ text, writeDocument "/w/out" "/w/out/a-b.md" text alikeTree
      = (alikeLeft [("a-b.md", text)], none) := fun text => by cbv
  have overwritten : ∀ text text', writeDocument "/w/out" "/w/out/a-b.md" text'
      (alikeLeft [("a-b.md", text)]) = (alikeLeft [("a-b.md", text')], none) :=
    fun text text' => by cbv
  have beside : ∀ text text', writeDocument "/w/out" "/w/out/d.md" text'
      (alikeLeft [("a-b.md", text)]) = (alikeLeft [("a-b.md", text), ("d.md", text')], none) :=
    fun text text' => by cbv
  have hasErrors : (Definition.alike.draft "a-b" danglingCommand .error).hasErrors = false
      ∧ (Definition.alike.draft "a:b" {} .error).hasErrors = false
      ∧ (Definition.alike.draft "c" lostCommand .error).hasErrors = true
      ∧ (Definition.alike.draft "d" {} .error).hasErrors = false :=
    ⟨by cbv, by cbv, by cbv, by cbv⟩
  obtain ⟨first, hfirst, -⟩ := Draft.exists_compile_ok hasErrors.1
  obtain ⟨second, hsecond, -⟩ := Draft.exists_compile_ok hasErrors.2.1
  obtain ⟨third, hthird⟩ := Draft.exists_compile_error hasErrors.2.2.1
  obtain ⟨fourth, hfourth, -⟩ := Draft.exists_compile_ok hasErrors.2.2.2
  refine ⟨second, fourth, hsecond, ?_⟩
  have hload : Definition.load alikeTree (alikeSetting.path alike.file) = .ok .alike :=
    Definition.load_alike
  have hasked : alike.commands .alike = .ok Definition.alike.commands := rfl
  have hpolicy : alikeSetting.config.policy = .error := rfl
  have hlog : alikeSetting.config.eventsLog = none := rfl
  have hprint : alike.print = false := rfl
  have hdirectory : alike.outputDirectory alikeSetting = "/w/out" := rfl
  have hextension : alikeSetting.config.outputExtension = "md" := rfl
  have hpaths : documentPath "/w/out" "md" "a-b" = "/w/out/a-b.md"
      ∧ documentPath "/w/out" "md" "a:b" = "/w/out/a-b.md"
      ∧ documentPath "/w/out" "md" "d" = "/w/out/d.md" := ⟨rfl, rfl, rfl⟩
  simp only [run, Session.finish_eq, Session.exec_bind, Session.exec_tree, Session.exec_ofExcept,
    hload, hasked, Definition.alike_commands, List.isEmpty_cons, Bool.false_eq_true, if_false,
    renderAll, renderOne, deliver, Session.logEvent, Session.exec_now, hpolicy, hlog, hprint,
    hfirst, hsecond, hthird, hfourth, hdirectory, hextension, hpaths, Session.exec_warn,
    Session.exec_change, written, overwritten, beside, Option.elim_none, Session.exec_print,
    Session.exec_pure]
  exact ⟨undisturbed_conclude _ _ _, by rw [Session.ending_world]⟩

end RenderTask

end Directives
