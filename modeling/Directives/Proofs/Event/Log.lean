/-
Logs are read back.

Events are put into a log one line after another, and a reader cuts the log at its lines.
As the line of an event has no line feed and ends in no carriage return, the lines that
are cut are the lines that were put there.

* `Text.lines_append`: the first line of a text.
* `EventLog.content`: what a log with events holds.
* `EventLog.readText_content`: the events of such a log are read back, in order.
* `EventLog.select_suffix`, `EventLog.length_select`: the last events of a command.
-/
import Directives.Event.Log
import Directives.Proofs.Event.Line

namespace Directives

/-! ### Lines -/

namespace Text

/-- A character goes on the first line, unless it ends a line. -/
lemma lines_cons {c : Char} {rest : Text} (hbreak : c ≠ '\n')
    (hreturn : c = '\r' → rest.head? ≠ some '\n') :
    lines (c :: rest) = onFirstLine c (lines rest) := by
  rw [lines]
  · exact hbreak
  · rintro tail rfl rfl
    exact hreturn rfl rfl

/-- **The first line of a text** ends at a line feed, when it has none itself and ends in
no carriage return. -/
theorem lines_append {line : Text} (unbroken : '\n' ∉ line) (bare : line.getLast? ≠ some '\r')
    (rest : Text) : lines (line ++ '\n' :: rest) = line :: lines rest := by
  induction line with
  | nil => rw [List.nil_append, lines]
  | cons c line ih =>
      rw [List.mem_cons, not_or] at unbroken
      have hreturn : c = '\r' → (line ++ '\n' :: rest).head? ≠ some '\n' := by
        rintro rfl
        cases line with
        | nil => exact absurd rfl bare
        | cons d line => simpa using fun h : d = '\n' => unbroken.2 (by simp [h])
      have hbare : line.getLast? ≠ some '\r' := by
        cases line with
        | nil => simp
        | cons d line => rwa [List.getLast?_cons_cons] at bare
      rw [List.cons_append, lines_cons (Ne.symm unbroken.1) hreturn, ih unbroken.2 hbare]
      rfl

end Text

namespace EventLog

/-! ### Reading -/

/-- What a log with events holds: their lines. -/
def content (events : List Event) : Text := events.flatMap record

lemma content_append (events more : List Event) :
    content (events ++ more) = content events ++ content more := List.flatMap_append

lemma content_singleton (event : Event) : content [event] = record event :=
  List.flatMap_singleton record event

/-- The lines of a log are the lines of its events. -/
lemma lines_content (events : List Event) : (content events).lines = events.map Event.line := by
  induction events with
  | nil => rfl
  | cons event events ih =>
      obtain ⟨inside, hline⟩ := event.exists_line_eq
      have hbare : event.line.getLast? ≠ some '\r' := by
        rw [hline, ← List.cons_append, List.getLast?_concat]
        decide
      have hcontent : content (event :: events) = event.line ++ '\n' :: content events := by
        simp [content, record]
      rw [hcontent, Text.lines_append event.unbroken_line hbare, ih, List.map_cons]

/-- No line of an event is blank. -/
lemma records_content (events : List Event) :
    records (content events) = events.map Event.line := by
  rw [records, lines_content, List.filter_eq_self]
  intro line hline
  obtain ⟨event, -, rfl⟩ := List.mem_map.mp hline
  obtain ⟨inside, heq⟩ := event.exists_line_eq
  have hbrace : isBlank '{' = false := by decide
  simp [heq, Text.isBlankText, hbrace]

/-- **The events of a log are read back**, in order, when the line of each is. -/
theorem readText_content (file : Path) {events : List Event}
    (readable : ∀ event ∈ events, Event.parse? event.line = some event) :
    readText file (content events) = .ok events := by
  have hlines : ∀ number, readLines file number (events.map Event.line) = .ok events := by
    induction events with
    | nil => exact fun _ => rfl
    | cons event events ih =>
        intro number
        obtain ⟨hevent, hevents⟩ := List.forall_mem_cons.mp readable
        rw [List.map_cons, readLines, hevent]
        simp only [ih hevents (number + 1)]
        rfl
  rw [readText, records_content, hlines]

/-! ### Selecting -/

/-- What is selected ends the events of the command. -/
lemma select_suffix (command : Text) (limit : Nat) (events : List Event) :
    select (some command) (some limit) events
      <:+ events.filter fun event => event.command == some command :=
  List.drop_suffix _ _

/-- As many are selected as are asked for, or all there are. -/
lemma length_select (command : Text) (limit : Nat) (events : List Event) :
    (select (some command) (some limit) events).length
      = min limit (events.filter fun event => event.command == some command).length := by
  simp only [select, Option.all_some, List.length_drop]
  omega

end EventLog

end Directives
