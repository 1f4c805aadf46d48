/-
Events behind any log that is read.

An event is put at the end of a log as it is, and the log may end in a line that has no
ending. If this line has spaces only, a reader passes over them, and the log is read with the
event behind those it had. Any other line goes on in that of the event, and what they make up
together is none: an event has nothing behind it, and of the blanks only spaces may stand in
front of one.

* `Event.parse?_behind`: the line of an event behind other characters.
* `EventLog.records_append_record`: the records of a log with one more event.
* `EventLog.exists_append`: an event is put behind any log that is read.
* `EventLog.read_append`: what is read then.
* `EventLog.read_append_astray`: the log may be one that cannot be read.
-/
import Directives.Proofs.Event.Log
import Directives.Proofs.Event.Malformed
import Directives.Proofs.FileTree.Around
import Directives.Proofs.Json.Trailing

namespace Directives

/-! ### Behind other characters -/

namespace Event

/-- Nothing stands behind an event. -/
lemma parse?_append {front : Text} (h : (parse? front).isSome) {c : Char} {token : Json.Token}
    (hc : Json.punctuation? c = some token) (rest : Text) : parse? (front ++ c :: rest) = none := by
  have hwritten : (Written.parse? front).isSome := by
    unfold parse? at h
    cases hfront : Written.parse? front with
    | none => simp [hfront] at h
    | some written => rfl
  rw [parse?, Written.parse?_append hwritten hc rest]
  rfl

/-- **The line of an event behind other characters**, which are blanks or an event, is an event
when these are spaces. -/
theorem parse?_behind {last : Text}
    (hlast : last.isBlankText = true ∨ (parse? last).isSome) (e : Event) :
    parse? (last ++ e.line)
      = if ∀ c ∈ last, Json.isSpace c = true then parse? e.line else none := by
  split_ifs with hspaces
  · rw [parse?, Written.parse?_spaces hspaces, parse?]
  · obtain hblank | hevent := hlast
    · rw [parse?, Written.parse?_blanks (by simpa [Text.isBlankText] using hblank) hspaces]
      rfl
    · obtain ⟨inside, hline⟩ := e.exists_line_eq
      rw [hline]
      exact parse?_append hevent rfl _

end Event

namespace EventLog

variable {tree : FileTree} {file : Path} {content front last : Text} {events : List Event}
  {event : Event}

/-! ### The records of a log with one more event -/

lemma isBlankText_of_spaces (h : ∀ c ∈ last, Json.isSpace c = true) : last.isBlankText = true := by
  refine List.all_eq_true.mpr fun c hc => ?_
  have hspace := h c hc
  simp only [Json.isSpace, Bool.or_eq_true, beq_iff_eq] at hspace
  obtain ((rfl | rfl) | rfl) | rfl := hspace <;> decide

/-- A line without an ending is a record, unless it is blank. -/
lemma records_of_unbroken (h : '\n' ∉ last) :
    records last = if last.isBlankText then [] else [last] := by
  by_cases hempty : last = []
  · rw [hempty]
    rfl
  · rw [records, Text.lines_of_unbroken h hempty, List.filter_singleton]
    cases last.isBlankText <;> rfl

/-- **One more record** takes in the line without an ending. -/
theorem records_append_record (hfront : front.Whole) (hlast : '\n' ∉ last) (event : Event) :
    records (front ++ last ++ record event) = records front ++ [last ++ event.line] := by
  obtain ⟨inside, hline⟩ := event.exists_line_eq
  have hunbroken : '\n' ∉ last ++ event.line := by
    rw [List.mem_append, not_or]
    exact ⟨hlast, event.unbroken_line⟩
  have hbare : (last ++ event.line).getLast? ≠ some '\r' := by
    rw [hline, ← List.cons_append, ← List.append_assoc, List.getLast?_concat]
    decide
  have hbrace : isBlank '{' = false := by decide
  have hfull : (last ++ event.line).isBlankText = false := by
    simp [hline, Text.isBlankText, hbrace]
  have hrecord : front ++ last ++ record event = front ++ ((last ++ event.line) ++ '\n' :: []) := by
    simp only [record, List.append_assoc]
  rw [hrecord, records_append hfront]
  congr 1
  rw [records, Text.lines_append hunbroken hbare, Text.lines, List.filter_singleton, hfull]
  rfl

/-- What is read of a log with one more event. -/
theorem readText_append_record (reads : readText file content = .ok events)
    (readable : Event.parse? event.line = some event) :
    readText file (content ++ record event)
      = if ∀ c ∈ content.lastLine, Json.isSpace c = true then .ok (events ++ [event])
        else .error (.malformedEvent ((records content.wholeLines).length + 1) file) := by
  have hcontent := content.wholeLines_append_lastLine
  have hfront := content.whole_wholeLines
  have hlast := content.unbroken_lastLine
  generalize content.wholeLines = front, content.lastLine = last at hcontent hfront hlast ⊢
  subst hcontent
  have hevents := readText_eq_ok_iff.mp reads
  rw [records_append hfront, records_of_unbroken hlast, List.map_append] at hevents
  obtain ⟨before, own, rfl, hbefore, hown⟩ := List.append_eq_map_iff.mp hevents
  have hself : last.isBlankText = true ∨ (Event.parse? last).isSome := by
    by_cases hblank : last.isBlankText = true
    · exact .inl hblank
    · rw [if_neg hblank] at hown
      obtain ⟨single, -, hsingle⟩ := List.map_eq_singleton_iff.mp hown
      rw [← hsingle]
      exact .inr rfl
  rw [readText, records_append_record hfront hlast, readLines_append hbefore.symm, readLines,
    Event.parse?_behind hself, Nat.add_comm]
  split_ifs with hspaces
  · rw [if_pos (isBlankText_of_spaces hspaces), List.map_nil, List.map_eq_nil_iff] at hown
    rw [readable, hown, List.append_nil]
    rfl
  · rfl

/-! ### Putting an event behind -/

/-- The directory around a log that is read is there. -/
lemma makeDirectory_of_readText (h : tree.readText file = .ok content) :
    makeDirectory tree file = (tree, none) := by
  obtain ⟨place, hfollow, hentry⟩ := FileTree.readText_eq_ok_iff.mp h
  unfold makeDirectory
  split
  · rfl
  · next directory hparent =>
      obtain rfl | hthere := FileTree.exists_parent hfollow hentry hparent
      · rfl
      · rw [hthere, Bool.or_true, if_pos rfl]

/-- **An event is put behind** any log that is read. -/
theorem exists_append (h : tree.readText file = .ok content) (event : Event) :
    ∃ tree', append tree file event = (tree', none)
      ∧ tree'.readText file = .ok (content ++ record event) := by
  obtain ⟨tree', hadded, hread⟩ : ∃ tree', tree.append file (record event) = .ok tree'
      ∧ tree'.readText file = .ok (content ++ record event) := FileTree.exists_append h
  refine ⟨tree', ?_, hread⟩
  rw [append, makeDirectory_of_readText h]
  simp only [hadded]

lemma read_eq_readText (h : tree.readText file = .ok content) :
    read tree file = readText file content := by
  rw [read, h]

/-- **What is read behind any log** that is read, when the line of the event is. The event is
put at the end of the log without a failure. It is read behind the events that the log had
exactly when the line without an ending at the end of the log has spaces only, so always when
there is no such line. Otherwise the log cannot be read any more: the failure is about that
line. -/
theorem read_append (reads : read tree file = .ok events)
    (readable : Event.parse? event.line = some event) :
    ∃ (content : Text) (tree' : FileTree), tree.readText file = .ok content
      ∧ append tree file event = (tree', none)
      ∧ tree'.readText file = .ok (content ++ record event)
      ∧ (read tree' file = .ok (events ++ [event])
        ↔ ∀ c ∈ content.lastLine, Json.isSpace c = true)
      ∧ ((¬ ∀ c ∈ content.lastLine, Json.isSpace c = true) →
        read tree' file
          = .error (.malformedEvent ((records content.wholeLines).length + 1) file)) := by
  obtain ⟨content, hcontent⟩ : ∃ content, tree.readText file = .ok content := by
    cases h : tree.readText file with
    | error fault => simp [read, h] at reads
    | ok content => exact ⟨content, rfl⟩
  obtain ⟨tree', hadded, hcontent'⟩ := exists_append hcontent event
  have hread := readText_append_record ((read_eq_readText hcontent).symm.trans reads) readable
  rw [← read_eq_readText hcontent'] at hread
  refine ⟨content, tree', hcontent, hadded, hcontent', ?_, fun hspaces => ?_⟩
  · rw [hread]
    split_ifs with hspaces
    · exact iff_of_true rfl hspaces
    · exact iff_of_false (by simp) hspaces
  · rw [hread, if_neg hspaces]

/-! ### Lines without an ending -/

/-- The event of the examples. -/
def idle : Event := { timestamp := ⟨0, 0⟩, action := .lint, actor := "me" }

/-- A tree with a log. -/
def logTree (content : Text) : FileTree where
  entries := [(["log"], .file (.text content))]

lemma parse?_idle : Event.parse? idle.line = some idle := by cbv

/-- A log with an event, a blank line, and spaces behind it. -/
theorem read_append_spaces :
    let tree := logTree (idle.line ++ "\r\n\n \t".toList)
    read tree "/log" = .ok [idle] ∧ Event.parse? idle.line = some idle
      ∧ ∃ tree', append tree "/log" idle = (tree', none)
        ∧ read tree' "/log" = .ok [idle, idle] := by
  intro tree
  have hreads : read tree "/log" = .ok [idle] := by cbv
  obtain ⟨content, tree', hcontent, hadded, -, hread, -⟩ := read_append hreads parse?_idle
  obtain rfl : idle.line ++ "\r\n\n \t".toList = content :=
    Except.ok.inj ((by cbv : _ = tree.readText "/log").trans hcontent)
  have hspaces : (idle.line ++ "\r\n\n \t".toList).lastLine.all Json.isSpace = true := by cbv
  exact ⟨hreads, parse?_idle, tree', hadded, hread.mpr (List.all_eq_true.mp hspaces)⟩

/-- **A log may be one that cannot be read** once an event was put behind it. -/
theorem read_append_astray : ¬ ∀ (tree tree' : FileTree) (file : Path) (events : List Event)
    (event : Event), read tree file = .ok events → Event.parse? event.line = some event →
    append tree file event = (tree', none) → read tree' file = .ok (events ++ [event]) := by
  intro reads
  have hread : read (logTree idle.line) "/log" = .ok [idle] := by cbv
  have hcontent : (logTree idle.line).readText "/log" = .ok idle.line := by cbv
  obtain ⟨tree', hadded, hcontent'⟩ := exists_append hcontent idle
  have hlater := reads _ tree' "/log" [idle] idle hread parse?_idle hadded
  have hspaces : idle.line.lastLine.all Json.isSpace = false := by cbv
  rw [read_eq_readText hcontent',
    readText_append_record ((read_eq_readText hcontent).symm.trans hread) parse?_idle,
    if_neg (by simpa using hspaces)] at hlater
  cases hlater

end EventLog

end Directives
