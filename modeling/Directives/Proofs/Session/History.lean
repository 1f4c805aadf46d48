/-
Histories of a log.

Runs that render and lint, one after another, share a log. What each adds to it is known
from the definitions it loads, and the log that is left holds all of it, run after run.
There is no log as long as there was nothing to log.

* `Run`: a task under its setting; `Run.Logs`: what a run has to log.
* `History`: runs one after another, with the events they have to log.
* `History.adds`: the events that runs add to the log.
* `History.pair`: an example, of whose two commands one compiles.
* `history_read`: the log at the end of a history, and what is shown of it.
* `history_unread`: there may be no log.
-/
import Directives.Proofs.Definition.Order
import Directives.Proofs.Session.Logging

namespace Directives

/-- A task under its setting. -/
structure Run where
  setting : Setting
  task : Task

namespace Run

/-- What a run leaves of the files it starts on. -/
def ending (run : Run) (tree : FileTree) : Ending := (run.task.run run.setting).finish tree

/-- What a run has to log when the definitions it comes to load: for a run that renders
the events of the commands that compile, of those that are asked for, and for a run that
lints the events of all commands of its files. Its first event has the first reading of
its clock, the next event the next one. The paths are those of the documents that it
writes. -/
inductive Logs (run : Run) (tree : FileTree) : List Path → List Event → Prop
  | render {task : RenderTask} {d : Definition} (renders : run.task = .render task)
      (loads : Definition.load tree (run.setting.path task.file) = .ok d) :
      Logs run tree (task.documents run.setting d (task.asked d))
        (run.setting.stamped 0 ((task.asked d).filterMap (RenderTask.event? run.setting d)))
  | lint {task : LintTask} {loaded : List (Path × Definition)} (lints : run.task = .lint task)
      (loads : LintTask.Loads run.setting { tree } task.files loaded) :
      Logs run tree []
        (run.setting.stamped 0
          (loaded.flatMap fun (file, d) => d.commands.map (LintTask.event run.setting file d)))

/-- **A run** that the file system does not fail adds what it has to log. -/
theorem Logs.adds {run : Run} {tree : FileTree} {documents : List Path} {events : List Event}
    {log : Path} (h : run.Logs tree documents events) (one : run.setting.logPaths = [log])
    (undisturbed : (run.ending tree).Undisturbed)
    (apart : let left := (run.ending tree).world.tree
      ∀ path ∈ documents, left.follow path ≠ left.follow log) :
    EventLog.Adds log events tree (run.ending tree).world.tree := by
  obtain ⟨setting, task⟩ := run
  cases h with
  | render renders loads =>
      obtain rfl := renders
      exact RenderTask.run_adds one loads undisturbed apart
  | lint lints loads =>
      obtain rfl := lints
      exact LintTask.run_adds one loads undisturbed

end Run

/-! ### Runs one after another -/

/-- Runs one after another that share a log, from one tree to another, with the events
that they have to log. All definitions they come to load, the file system fails none of
them, and no document they write is written over the log. -/
inductive History (log : Path) : FileTree → List Run → List Event → FileTree → Prop
  | nil (tree : FileTree) : History log tree [] [] tree
  | cons {tree left : FileTree} {run : Run} {runs : List Run} {documents : List Path}
      {own events : List Event} (one : run.setting.logPaths = [log])
      (logs : run.Logs tree documents own) (undisturbed : (run.ending tree).Undisturbed)
      (apart : ∀ path ∈ documents,
        (run.ending tree).world.tree.follow path ≠ (run.ending tree).world.tree.follow log)
      (later : History log (run.ending tree).world.tree runs events left) :
      History log tree (run :: runs) (own ++ events) left

variable {log : Path} {tree left : FileTree} {runs : List Run} {events : List Event}

/-- **The events that runs add** are those that they have to log, run after run. -/
theorem History.adds (h : History log tree runs events left) :
    EventLog.Adds log events tree left := by
  induction h with
  | nil tree => exact EventLog.Adds.refl log tree
  | cons one logs undisturbed apart later ih => exact (logs.adds one undisturbed apart).trans ih

/-! ### Showing the log -/

namespace LogTask

variable {setting : Setting}

/-- What is shown when there is no log. -/
lemma finish_of_missing (one : setting.logPaths = [log]) (missing : tree.exists? log = false)
    (task : LogTask) :
    (task.run setting).finish tree = { world := { tree, output := "No events recorded.\n" } } := by
  obtain ⟨name, hname, rfl⟩ := Setting.exists_of_logPaths one
  simp only [run, hname, Session.finish_eq, Session.exec_bind, Session.exec_tree, missing,
    Bool.false_eq_true, if_false, Session.exec_print]
  rfl

/-- What is shown of a log that is read. -/
lemma finish_of_read (one : setting.logPaths = [log])
    (reads : EventLog.read tree log = .ok events) (task : LogTask) :
    (task.run setting).finish tree = { world := { tree, output := task.text events } } := by
  have hexists : tree.exists? log = true := by
    cases hread : tree.readText log with
    | error fault => simp [EventLog.read, hread] at reads
    | ok content =>
        obtain ⟨place, hfollow, hentry⟩ := FileTree.readText_eq_ok_iff.mp hread
        simp [FileTree.exists?, FileTree.find?, hfollow, hentry]
  obtain ⟨name, hname, rfl⟩ := Setting.exists_of_logPaths one
  simp only [run, hname, Session.finish_eq, Session.exec_bind, Session.exec_tree, hexists,
    if_true, reads, Session.exec_ofExcept, Session.exec_print]
  rfl

end LogTask

/-! ### An example -/

namespace History

/-- Two commands, of which the first does not compile. -/
def pair : Definition where
  commands := [("c", lostCommand), ("d", {})]

/-- The file of the example. -/
def pairText : Text := "commands:\n c:\n  steps:\n  - include: x\n d: {}\n"

/-- How the file is cut into tokens. -/
def pairTokens : List Yaml.Token :=
  [.blockMap, .key, .scalar .plain "commands", .value,
    .blockMap, .key, .scalar .plain "c", .value,
      .blockMap, .key, .scalar .plain "steps", .value,
        .entry, .blockMap, .key, .scalar .plain "include", .value, .scalar .plain "x",
        .blockEnd, .blockEnd,
      .key, .scalar .plain "d", .value, .flowMapStart, .flowMapEnd, .blockEnd, .blockEnd]

/-- What the tokens make. -/
def pairNode : Yaml.Node Text :=
  .map none [(.scalar none .plain "commands", .map none
    [(.scalar none .plain "c", .map none [(.scalar none .plain "steps", .list none
       [.map none [(.scalar none .plain "include", .scalar none .plain "x")]])]),
     (.scalar none .plain "d", .map none [])])]

/-- What the file says. -/
def pairDatum : Datum :=
  .map [(.text "commands", .map
    [(.text "c", .map [(.text "steps", .list [.map [(.text "include", .text "x")]])]),
     (.text "d", .map [])])]

/-- The tree of the example, with more entries. -/
def pairTree (more : List (FileTree.Place × FileTree.Entry)) : FileTree where
  entries := (["w"], .directory) :: (["w", "f"], .file (.text pairText)) :: more

/-- The file is loaded wherever it stands under its name. -/
lemma load_pair {tree : FileTree} (hread : tree.readText "/w/f" = .ok pairText) :
    Definition.load tree "/w/f" = .ok pair := by
  have htokens : (Yaml.prepare? pairText >>= Yaml.tokens?) = some pairTokens := by
    decide +kernel
  have hnode : Yaml.ofTokens? pairTokens = some pairNode := by cbv
  have hdatum : (Yaml.link? pairNode >>= fun linked => linked.read? Definition.shape)
      = some pairDatum := rfl
  have hdefinition : Definition.ofDatum? pairDatum = some pair := by cbv
  exact Definition.load_of_stages hread rfl htokens hnode hdatum hdefinition

/-- The setting of the example, with a log and a clock that is a second further at each
reading. -/
def setting : Setting where
  config := { eventsLog := some "log" }
  directory := "/w"
  actor := "me"
  clock := ⟨fun n => ⟨n, 0⟩⟩

/-- The run that renders the file. -/
def rendering : Run := ⟨setting, .render { file := "f" }⟩

/-- The run that lints the file. -/
def linting : Run := ⟨setting, .lint { files := ["f"] }⟩

/-- An event of the example, some seconds after the clock was started. -/
def event (seconds : Int) (action : Action) (command : Text) (details : List (Text × Json)) :
    Event where
  timestamp := ⟨seconds, 0⟩
  action
  actor := "me"
  command := some command
  details := Json.fields details

/-- The event of the command that compiles. -/
def rendered : Event :=
  event 0 .compile "d" [("rules", .nat 0), ("guidelines", .nat 0), ("diagnostics", .nat 0)]

/-- The event of a command that is linted. -/
def linted (seconds : Int) (command : Text) (diagnostics : Nat) : Event :=
  event seconds .lint command [("file", .text "f"), ("diagnostics", .nat diagnostics)]

/-- The events of both runs: the second run reads its clock twice. -/
def pairEvents : List Event := [rendered, linted 0 "c" 1, linted 1 "d" 0]

/-- The tree with the document. -/
def pairWritten : FileTree :=
  pairTree [(["w", "out"], .directory), (["w", "out", "d.md"], .file (.text []))]

/-- The tree with the document and with a log. -/
def pairLeft (log : Text) : FileTree :=
  pairTree [(["w", "out"], .directory), (["w", "out", "d.md"], .file (.text [])),
    (["w", "log"], .file (.text log))]

/-- A log that is there already gets one more record. -/
lemma append_pair (log : Text) (e : Event) :
    EventLog.append (pairLeft log) "/w/log" e = (pairLeft (log ++ EventLog.record e), none) := by
  have hmade : EventLog.makeDirectory (pairLeft log) "/w/log" = (pairLeft log, none) := by cbv
  have hadded : ∀ text, (pairLeft log).append "/w/log" text = .ok (pairLeft (log ++ text)) :=
    fun text => by cbv
  simp only [EventLog.append, hmade, hadded]

/-- Rendering leaves the document of the command that compiles, and a log with its event. -/
lemma ending_rendering : (rendering.ending (pairTree [])).Undisturbed
    ∧ (rendering.ending (pairTree [])).world.tree = pairLeft (EventLog.content [rendered]) := by
  have hload : Definition.load (pairTree []) (setting.path "f") = .ok pair := load_pair (by cbv)
  have hasked : RenderTask.commands { file := "f" } pair
      = .ok [(("c" : Text), lostCommand), ("d", {})] := rfl
  obtain ⟨failure, hfailure⟩ : ∃ failure,
      (pair.draft "c" lostCommand .error).compile = .error failure :=
    Draft.exists_compile_error (by cbv)
  obtain ⟨document, hdocument, -⟩ : ∃ document, (pair.draft "d" {} .error).compile = .ok document
      ∧ document.text = (pair.draft "d" {} .error).document :=
    Draft.exists_compile_ok (by cbv)
  have hmap : (pair.draft "d" {} .error).compile.map
      (fun document => (document.text, RenderTask.details document))
        = .ok ([], rendered.details) := by cbv
  rw [hdocument] at hmap
  obtain ⟨htext, hdetails⟩ := Prod.mk.inj (Except.ok.inj hmap)
  have hwritten : RenderTask.writeDocument "/w/out" "/w/out/d.md" [] (pairTree [])
      = (pairWritten, none) := by cbv
  have hmade : EventLog.makeDirectory pairWritten "/w/log" = (pairWritten, none) := by cbv
  have hadded : ∀ text, pairWritten.append "/w/log" text = .ok (pairLeft text) :=
    fun text => by cbv
  have hpolicy : setting.config.policy = .error := rfl
  have hlog : setting.config.eventsLog = some ("log" : Text) := rfl
  have hpath : setting.path "log" = "/w/log" := rfl
  have hdirectory : RenderTask.outputDirectory { file := "f" } setting = "/w/out" := rfl
  have hfile : RenderTask.documentPath "/w/out" setting.config.outputExtension "d"
      = "/w/out/d.md" := rfl
  have hrun : rendering.ending (pairTree [])
      = (RenderTask.run { file := "f" } setting).finish (pairTree []) := rfl
  rw [hrun]
  simp only [RenderTask.run, Session.finish_eq, Session.exec_bind, Session.exec_tree,
    Session.exec_ofExcept, hload, hasked, List.isEmpty_cons, Bool.false_eq_true, if_false,
    RenderTask.renderAll, RenderTask.renderOne, RenderTask.deliver, Session.logEvent,
    Session.exec_now, hpolicy, hlog, hpath, hfailure, hdocument, htext, hdetails, hdirectory, hfile,
    Session.exec_warn, Session.exec_change, hwritten, EventLog.append, hmade, hadded,
    Option.elim_none, Session.exec_print, Session.exec_pure]
  exact ⟨RenderTask.undisturbed_conclude _ _ _, by rw [Session.ending_world]; rfl⟩

/-- Linting puts the events of both commands behind the log. -/
lemma ending_linting (log : Text) : (linting.ending (pairLeft log)).Undisturbed
    ∧ (linting.ending (pairLeft log)).world.tree
      = pairLeft (log ++ EventLog.content [linted 0 "c" 1, linted 1 "d" 0]) := by
  have hload : Definition.load (pairLeft log) (setting.path "f") = .ok pair := load_pair (by cbv)
  have hcommands : pair.commands = [(("c" : Text), lostCommand), ("d", {})] := rfl
  have hdetails : LintTask.details "f" (pair.draft "c" lostCommand .error).diagnostics
        = (linted 0 "c" 1).details
      ∧ LintTask.details "f" (pair.draft "d" {} .error).diagnostics = (linted 1 "d" 0).details :=
    ⟨by cbv, by cbv⟩
  have hpolicy : setting.config.policy = .error := rfl
  have hlog : setting.config.eventsLog = some ("log" : Text) := rfl
  have hpath : setting.path "log" = "/w/log" := rfl
  have hrun : linting.ending (pairLeft log)
      = (LintTask.run { files := ["f"] } setting).finish (pairLeft log) := rfl
  rw [hrun]
  simp only [LintTask.run, LintTask.lintFiles, LintTask.lintCommands, Session.finish_eq,
    Session.exec_bind, Session.exec_tree, Session.exec_ofExcept, hload, hcommands,
    Session.logEvent, Session.exec_now, hpolicy, hlog, hpath, hdetails, Session.exec_change,
    append_pair, Option.elim_none, Session.exec_pure, Session.exec_print]
  refine ⟨LintTask.undisturbed_conclude _ _ _, ?_⟩
  rw [Session.ending_world, List.append_assoc]
  rfl

/-- What rendering has to log. -/
lemma logs_rendering : rendering.Logs (pairTree []) ["/w/out/d.md"] [rendered] := by
  let task : RenderTask := { file := "f" }
  have hlogs : rendering.Logs (pairTree []) (task.documents setting pair (task.asked pair))
      (setting.stamped 0 ((task.asked pair).filterMap (RenderTask.event? setting pair))) :=
    .render rfl (load_pair (by cbv))
  have hdocuments : task.documents setting pair (task.asked pair) = ["/w/out/d.md"] := by cbv
  have hevents : setting.stamped 0
      ((task.asked pair).filterMap (RenderTask.event? setting pair)) = [rendered] := by cbv
  rwa [hdocuments, hevents] at hlogs

/-- What linting has to log. -/
lemma logs_linting (log : Text) :
    linting.Logs (pairLeft log) [] [linted 0 "c" 1, linted 1 "d" 0] := by
  have hlogs : linting.Logs (pairLeft log) []
      (setting.stamped 0 ([(("f" : Path), pair)].flatMap fun (file, d) =>
        d.commands.map (LintTask.event setting file d))) :=
    .lint rfl (LintTask.loads_singleton (load_pair (by cbv)))
  have hevents : setting.stamped 0 ([(("f" : Path), pair)].flatMap fun (file, d) =>
      d.commands.map (LintTask.event setting file d)) = [linted 0 "c" 1, linted 1 "d" 0] := by cbv
  rwa [hevents] at hlogs

/-- The two runs, one after the other. -/
lemma history_pair : History "/w/log" (pairTree []) [rendering, linting] pairEvents
    (pairLeft (EventLog.content pairEvents)) := by
  obtain ⟨hundisturbed, hrendered⟩ := ending_rendering
  obtain ⟨hundisturbed', hlinted⟩ := ending_linting (EventLog.content [rendered])
  rw [← EventLog.content_append] at hlinted
  have hdocument : ∀ log, (pairLeft log).follow "/w/out/d.md" = .ok ["w", "out", "d.md"] :=
    fun log => by cbv
  have hlog : ∀ log, (pairLeft log).follow "/w/log" = .ok ["w", "log"] := fun log => by cbv
  refine cons rfl logs_rendering hundisturbed ?_ ?_
  · rw [hrendered, List.forall_mem_singleton, hdocument, hlog]
    simp
  · rw [hrendered]
    refine cons rfl (logs_linting _) hundisturbed' (by simp) ?_
    rw [hlinted]
    exact nil _

/-- An event is read in stages: its line is cut into tokens, and these make the event. -/
lemma parse?_of_tokens {e : Event} {tokens : List Json.Token}
    (htokens : Json.tokens e.line = some tokens)
    (hevent : (Written.readValue [] tokens >>= Event.ofWritten?) = some e) :
    Event.parse? e.line = some e := by
  rw [Event.parse?, Written.parse?, htokens]
  exact hevent

/-- How an event of the example is cut into tokens. -/
def tokens (timestamp action command : Text) (details : List Json.Token) : List Json.Token :=
  let front : List Json.Token :=
    [.openObject, .text (some "ts"), .colon, .text (some timestamp), .comma,
      .text (some "action"), .colon, .text (some action), .comma,
      .text (some "actor"), .colon, .text (some "me"), .comma,
      .text (some "command"), .colon, .text (some command), .comma,
      .text (some "details"), .colon, .openObject]
  front ++ details ++ [.closeObject, .closeObject]

/-- How the event of the command that compiles is cut into tokens. -/
def renderedTokens : List Json.Token :=
  tokens "1970-01-01T00:00:00Z" "compile" "d"
    [.text (some "diagnostics"), .colon, .number "0", .comma,
      .text (some "guidelines"), .colon, .number "0", .comma,
      .text (some "rules"), .colon, .number "0"]

/-- How the event of a command that is linted is cut into tokens. -/
def lintedTokens (timestamp command diagnostics : Text) : List Json.Token :=
  tokens timestamp "lint" command
    [.text (some "diagnostics"), .colon, .number diagnostics, .comma,
      .text (some "file"), .colon, .text (some "f")]

/-- The lines of the events are read back. -/
lemma parse?_pair : ∀ e ∈ pairEvents, Event.parse? e.line = some e := by
  have hrendered : Json.tokens rendered.line = some renderedTokens := by decide +kernel
  have hfirst : Json.tokens (linted 0 "c" 1).line
      = some (lintedTokens "1970-01-01T00:00:00Z" "c" "1") := by decide +kernel
  have hsecond : Json.tokens (linted 1 "d" 0).line
      = some (lintedTokens "1970-01-01T00:00:01Z" "d" "0") := by decide +kernel
  simp only [pairEvents, List.forall_mem_cons]
  exact ⟨parse?_of_tokens hrendered rfl, parse?_of_tokens hfirst rfl,
    parse?_of_tokens hsecond rfl, by simp⟩

/-- A file without commands. -/
def blankTree : FileTree where
  entries := [((["w"] : FileTree.Place), .directory),
    ((["w", "f"] : FileTree.Place), .file (.text []))]

end History

/-! ### The log of a history -/

/-- **The log of a history.** Where nothing was at the place of the log when the runs
began, and the line of each event is read back, the log that is left gives the events of
all runs in order, nothing lost, doubled or moved: for each run that renders one event
for each command that compiles, with the numbers of its document, and for each run that
lints one event for each command of each file, with the number of its diagnostics. Each
event of a run has a reading of the clock of its own. The commands of a file are in the
order of their names. If nothing was logged, there is no log, and no file was changed. Of
the events of a command as many are shown as are asked for, the last ones, in this
order. -/
theorem history_read (history : History log tree runs events left)
    (fresh : ∀ place, left.follow log = .ok place → tree.entry? place = none)
    (readable : ∀ event ∈ events, Event.parse? event.line = some event) :
    (events ≠ [] → EventLog.read left log = .ok events)
      ∧ (events = [] → left = tree ∧ left.exists? log = false)
      ∧ (∀ tree file d, Definition.load tree file = .ok d → Ordered d.commands)
      ∧ ∀ command limit,
        let chosen := events.filter fun event => event.command == some command
        let shown := EventLog.select (some command) (some limit) events
        (shown <:+ chosen ∧ shown.length = min limit chosen.length)
          ∧ ∀ setting : Setting, setting.logPaths = [log] →
            (LogTask.run { command := some command, limit := some limit } setting).finish left
              = { world :=
                  { tree := left
                    output :=
                      if events = [] then "No events recorded.\n"
                      else if shown = [] then "No matching events.\n"
                      else shown.flatMap fun event => EventLog.report event ++ ['\n'] } } := by
  have hadds := history.adds
  have hreads := fun some => hadds.read some fresh readable
  have hmissing : events = [] → left = tree ∧ left.exists? log = false := by
    intro hnone
    obtain rfl := hadds.idle hnone
    refine ⟨rfl, ?_⟩
    cases hfollow : left.follow log with
    | error fault => simp [FileTree.exists?, FileTree.find?, hfollow]
    | ok place => simp [FileTree.exists?, FileTree.find?, hfollow, fresh place hfollow]
  refine ⟨hreads, hmissing, fun _ _ _ loads => (Definition.ordered_load loads).2, ?_⟩
  intro command limit chosen shown
  refine ⟨⟨EventLog.select_suffix _ _ _, EventLog.length_select _ _ _⟩, fun setting one => ?_⟩
  by_cases hnone : events = []
  · rw [LogTask.finish_of_missing one (hmissing hnone).2, if_pos hnone]
  · rw [LogTask.finish_of_read one (hreads hnone), if_neg hnone]
    simp only [LogTask.text, List.isEmpty_iff]
    rfl

/-- In the example the log that is left gives the three events of both runs, and of the two
about the second command the last one is shown. -/
theorem history_read_pair :
    let left := History.pairLeft (EventLog.content History.pairEvents)
    EventLog.read left "/w/log" = .ok History.pairEvents
      ∧ ((LogTask.run { command := some "d", limit := some 1 } History.setting).finish left).world
          = { tree := left, output := EventLog.report (History.linted 1 "d" 0) ++ ['\n'] } := by
  intro left
  have fresh : ∀ place, left.follow "/w/log" = .ok place →
      FileTree.entry? (History.pairTree []) place = none := by
    have hfollow : ∀ log, (History.pairLeft log).follow "/w/log" = .ok ["w", "log"] :=
      fun log => by cbv
    intro place hplace
    obtain rfl := Except.ok.inj ((hfollow _).symm.trans hplace)
    cbv
  have hsome : History.pairEvents ≠ [] := by simp [History.pairEvents]
  obtain ⟨hread, -, -, hshown⟩ := history_read History.history_pair fresh History.parse?_pair
  obtain ⟨-, hrun⟩ := hshown "d" 1
  have hselect : EventLog.select (some "d") (some 1) History.pairEvents
      = [History.linted 1 "d" 0] := by cbv
  refine ⟨hread hsome, ?_⟩
  rw [hrun History.setting rfl, hselect, if_neg hsome]
  simp [left]

/-- **A history without events leaves no log** that can be read: linting a file without
commands is one. -/
theorem history_unread : ¬ ∀ (log : Path) (tree left : FileTree) (runs : List Run)
    (events : List Event), History log tree runs events left →
    (∀ place, left.follow log = .ok place → tree.entry? place = none) →
    (∀ event ∈ events, Event.parse? event.line = some event) →
    EventLog.read left log = .ok events := by
  intro reads
  have hload : Definition.load History.blankTree "/w/f" = .ok {} := by cbv
  have hlogs : History.linting.Logs History.blankTree [] [] :=
    @Run.Logs.lint History.linting History.blankTree _ _ rfl (LintTask.loads_singleton hload)
  have hending : (History.linting.ending History.blankTree).Undisturbed
      ∧ (History.linting.ending History.blankTree).world.tree = History.blankTree := by cbv
  obtain ⟨hundisturbed, hleft⟩ := hending
  have history : History "/w/log" History.blankTree [History.linting] ([] ++ [])
      History.blankTree := by
    refine .cons rfl hlogs hundisturbed (by simp) ?_
    rw [hleft]
    exact .nil History.blankTree
  have hfresh : ∀ place, History.blankTree.follow "/w/log" = .ok place →
      History.blankTree.entry? place = none := by
    have hfollow : History.blankTree.follow "/w/log" = .ok ["w", "log"] := by cbv
    intro place hplace
    obtain rfl := Except.ok.inj (hfollow.symm.trans hplace)
    cbv
  have hread := reads "/w/log" _ _ _ _ history hfresh (by simp)
  have hmissing : EventLog.read History.blankTree "/w/log"
      = .error (.unreadableEvents "/w/log" .notFound) := by cbv
  rw [hmissing] at hread
  cases hread

end Directives
