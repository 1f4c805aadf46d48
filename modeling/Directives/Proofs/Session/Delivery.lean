/-
What becomes of documents that are written to files.

The name of a file is an image of the name of a command, and commands may share it.
The document of a command is in its file at the end of a run unless something that is
written later leads to that file: a later command that compiles, or the log.

* `RenderTask.written`: the paths that commands write to.
* `RenderTask.LeavesAll.updates`: commands change no other files.
* `document_kept`: the documents of a run, at its end.
-/
import Directives.Proofs.FileTree.Write
import Directives.Proofs.Session.Render

namespace Directives

/-! ### The log -/

namespace EventLog

lemma updates_makeDirectory (tree : FileTree) (file : Path) :
    FileTree.Updates [] tree (makeDirectory tree file).1 := by
  unfold makeDirectory
  split
  · exact .refl tree
  · split_ifs
    · exact .refl tree
    · exact FileTree.updates_createDirectories tree _

lemma updates_append {tree tree' : FileTree} {file : Path} {event : Event}
    (h : append tree file event = (tree', none)) : FileTree.Updates [file] tree tree' := by
  have hmade := updates_makeDirectory tree file
  unfold append at h
  split at h
  · cases h
  · next made =>
      rw [made] at hmade
      split at h
      · cases h
      · next hadded =>
          rw [← (Prod.mk.inj h).1]
          exact hmade.trans (FileTree.updates_append hadded)

end EventLog

/-- The file of the log, if the config has one. -/
def Setting.logPaths (setting : Setting) : List Path :=
  (setting.config.eventsLog.map setting.path).toList

/-- Logging an event changes no file but the log. -/
lemma Session.Logged.updates {setting : Setting} {event : Event} {tree tree' : FileTree}
    (h : Logged setting event tree tree') : FileTree.Updates setting.logPaths tree tree' := by
  cases hlog : setting.config.eventsLog with
  | none =>
      rw [(logged_iff_of_none hlog).mp h]
      exact .refl tree
  | some log =>
      have hpaths : setting.logPaths = [setting.path log] := by
        rw [Setting.logPaths, hlog, Option.map_some, Option.toList_some]
      rw [hpaths]
      exact EventLog.updates_append ((logged_iff_of_some hlog).mp h)

/-! ### Documents -/

namespace RenderTask

variable {task : RenderTask} {setting : Setting} {d : Definition} {turn : Nat}
  {tree tree' : FileTree}

/-- The paths that commands write to: the files of those that compile, and the log. -/
def written (task : RenderTask) (setting : Setting) (d : Definition)
    (commands : List (Text × Command)) : List Path :=
  commands.flatMap fun c =>
    match (d.draft c.1 c.2 setting.config.policy).compile with
    | .error _ => []
    | .ok _ => task.pathOf setting c.1 :: setting.logPaths

/-- A document that was delivered is in its file, and nothing else changed. -/
lemma writeDocument_spec {directory path : Path} {text : Text}
    (h : writeDocument directory path text tree = (tree', none)) :
    FileTree.Updates [path] tree tree' ∧ tree'.readText path = .ok text := by
  have hmade := FileTree.updates_createDirectories tree directory
  unfold writeDocument at h
  split at h
  · cases h
  · next made =>
      rw [made] at hmade
      split at h
      · cases h
      · next hwritten =>
          rw [← (Prod.mk.inj h).1]
          exact ⟨hmade.trans (FileTree.updates_write hwritten), FileTree.readText_write hwritten⟩

lemma Delivered.updates {command text : Text} (h : task.Delivered setting command text tree tree') :
    FileTree.Updates [task.pathOf setting command] tree tree' := by
  cases hprint : task.print with
  | true =>
      obtain rfl : tree' = tree := by simpa [Delivered, hprint] using h
      exact .refl tree'
  | false => exact (writeDocument_spec ((delivered_iff_of_files hprint).mp h)).1

/-- One command writes to its file and to the log. -/
lemma Leaves.updates {c : Text × Command} (h : task.Leaves setting d turn c tree tree') :
    FileTree.Updates (task.written setting d [c]) tree tree' := by
  cases hcompile : (d.draft c.1 c.2 setting.config.policy).compile with
  | error failure =>
      rw [(leaves_iff_of_error hcompile).mp h]
      exact .refl tree
  | ok document =>
      obtain ⟨written, hdelivered, hlogged⟩ := (leaves_iff_of_ok hcompile).mp h
      simpa [RenderTask.written, hcompile] using hdelivered.updates.trans hlogged.updates

/-- **Commands** change no files but those they write to. -/
theorem LeavesAll.updates {commands : List (Text × Command)}
    (h : task.LeavesAll setting d turn commands tree tree') :
    FileTree.Updates (task.written setting d commands) tree tree' := by
  induction h with
  | nil _ tree => exact .refl tree
  | cons first _ ih => simpa [written] using first.updates.trans ih

/-- Commands in two parts leave what the second leaves behind the first. -/
lemma LeavesAll.split {before after : List (Text × Command)}
    (h : task.LeavesAll setting d turn (before ++ after) tree tree') :
    ∃ between, task.LeavesAll setting d turn before tree between
      ∧ task.LeavesAll setting d (turn + (before.map (readings setting d)).sum) after
        between tree' := by
  induction before generalizing turn tree with
  | nil => exact ⟨tree, .nil turn tree, h⟩
  | cons c before ih =>
      cases h with
      | cons first others =>
          obtain ⟨between, hbefore, hafter⟩ := ih others
          rw [Nat.add_assoc] at hafter
          exact ⟨between, .cons first hbefore, hafter⟩

end RenderTask

/-- **Documents stay in their files** unless something else leads there. At the end of a
run that writes files, and that the file system does not fail, the file of a command
that compiles holds its document, if neither the path of the log nor the path of a later
command that compiles leads to that file. -/
theorem document_kept {setting : Setting} {d : Definition} {task : RenderTask} {tree : FileTree}
    {commands before after : List (Text × Command)} {c : Text × Command} {document : Document}
    (files : task.print = false)
    (loads : Definition.load tree (setting.path task.file) = .ok d)
    (asked : task.commands d = .ok commands)
    (undisturbed : ((task.run setting).finish tree).Undisturbed)
    (place : commands = before ++ c :: after)
    (compiles : (d.draft c.1 c.2 setting.config.policy).compile = .ok document)
    (apart : let left := ((task.run setting).finish tree).world.tree
      ∀ path ∈ setting.logPaths ++ task.written setting d after,
        left.follow path ≠ left.follow (task.pathOf setting c.1)) :
    ((task.run setting).finish tree).world.tree.readText (task.pathOf setting c.1)
      = .ok document.text := by
  obtain ⟨world, hfinish, -, -, hleaves⟩ := RenderTask.run_ensures loads asked undisturbed
  rw [hfinish, Session.ending_world] at apart ⊢
  rw [place] at hleaves
  obtain ⟨_, -, hlater⟩ := hleaves.split
  cases hlater with
  | cons own others =>
      obtain ⟨written, hdelivered, hlogged⟩ := (RenderTask.leaves_iff_of_ok compiles).mp own
      -- The document is there once it is written; the event of its own command, and all
      -- that the later commands write, leads elsewhere.
      have hread := (RenderTask.writeDocument_spec
        ((RenderTask.delivered_iff_of_files files).mp hdelivered)).2
      exact (hlogged.updates.trans others.updates).readText hread apart

/-- In the example the second of two commands with one file name keeps its document: the
commands behind it write to another file, or do not compile. -/
theorem document_kept_alike : ∃ document,
    (Definition.alike.draft "a:b" {} .error).compile = .ok document
      ∧ ((RenderTask.alike.run RenderTask.alikeSetting).finish alikeTree).world.tree.readText
        "/w/out/a-b.md" = .ok document.text := by
  obtain ⟨second, fourth, hsecond, undisturbed, hleft⟩ := RenderTask.finish_alike
  refine ⟨second, hsecond, ?_⟩
  have later : RenderTask.alikeSetting.logPaths
      ++ RenderTask.alike.written RenderTask.alikeSetting .alike [("c", lostCommand), ("d", {})]
      = [("/w/out/d.md" : Text)] := by cbv
  have places : ∀ text text',
      (RenderTask.alikeLeft [("a-b.md", text), ("d.md", text')]).follow "/w/out/a-b.md"
          = .ok ["w", "out", "a-b.md"]
        ∧ (RenderTask.alikeLeft [("a-b.md", text), ("d.md", text')]).follow "/w/out/d.md"
          = .ok ["w", "out", "d.md"] := fun text text' => ⟨by cbv, by cbv⟩
  have place : Definition.alike.commands = [(("a-b" : Text), danglingCommand)]
      ++ (("a:b" : Text), {}) :: [(("c" : Text), lostCommand), (("d" : Text), {})] := rfl
  refine document_kept rfl Definition.load_alike rfl undisturbed place hsecond ?_
  intro left path hpath
  rw [later, List.mem_singleton] at hpath
  have hleft' : left = _ := hleft
  obtain ⟨hkept, hother⟩ := places second.text fourth.text
  rw [hpath, hleft', hother]
  exact fun heq => absurd (heq.trans hkept) (by simp)

/-- **Documents are written over**: two commands with one file name leave the document of
the second alone, in a run that does not fail on the files. -/
theorem document_overwritten : ¬ ∀ (setting : Setting) (task : RenderTask) (d : Definition)
    (tree : FileTree) (c : Text × Command) (document : Document),
    task.print = false → task.command = none →
    Definition.load tree (setting.path task.file) = .ok d →
    ((task.run setting).finish tree).Undisturbed → c ∈ d.commands →
    (d.draft c.1 c.2 setting.config.policy).compile = .ok document →
    ((task.run setting).finish tree).world.tree.readText (task.pathOf setting c.1)
      = .ok document.text := by
  intro kept
  obtain ⟨second, fourth, hsecond, undisturbed, hleft⟩ := RenderTask.finish_alike
  have hclean : (Definition.alike.draft "a-b" danglingCommand .error).hasErrors = false := by cbv
  obtain ⟨first, hfirst, htext⟩ := Draft.exists_compile_ok hclean
  have hkept := kept RenderTask.alikeSetting .alike .alike alikeTree ("a-b", danglingCommand) first
    rfl rfl Definition.load_alike undisturbed (by simp [Definition.alike_commands]) hfirst
  have reads : ∀ text text',
      (RenderTask.alikeLeft [("a-b.md", text), ("d.md", text')]).readText "/w/out/a-b.md"
        = .ok text := fun text text' => by cbv
  rw [hleft] at hkept
  have hsame : second.text = first.text :=
    Except.ok.inj ((reads second.text fourth.text).symm.trans hkept)
  have hempty : second.text = [] := by
    have hmap : (Definition.alike.draft "a:b" {} .error).compile.map Document.text = .ok [] := by
      cbv
    rw [hsecond] at hmap
    exact Except.ok.inj hmap
  have hrules : (Definition.alike.draft "a-b" danglingCommand .error).rules
      = ⟨[{ key := "y", body := "{Z?unresolved}" }]⟩ := by cbv
  have hguidelines : (Definition.alike.draft "a-b" danglingCommand .error).guidelines = {} := by cbv
  have hdocument : (Definition.alike.draft "a-b" danglingCommand .error).document ≠ [] := by
    rw [Draft.document, hrules, hguidelines]
    decide +kernel
  exact hdocument (htext.symm.trans (hsame.symm.trans hempty))

end Directives
