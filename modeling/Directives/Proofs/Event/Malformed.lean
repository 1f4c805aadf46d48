/-
Logs that cannot be read.

A log is read when each of its lines is blank or an event. Otherwise the failure is about the
first line that is neither. The number it gives counts the lines up to this one that are not
blank, so it is the number of the line in the file, one more than the number of line feeds in
front of it, exactly when no line in front of it is blank.

* `EventLog.isMalformed`: a line that is neither blank nor an event.
* `EventLog.FirstMalformed`: the first such line of a log, and what stands in front of it.
* `EventLog.readLines_append`: a reader goes on behind lines that are events.
* `EventLog.FirstMalformed.readText`: the failure about the first malformed line.
* `EventLog.read_malformed`: when a log cannot be read, and what the failure says.
* `EventLog.read_malformed_astray`: its number is not always that of the line in the file.
-/
import Directives.Event.Log
import Directives.Proofs.FileTree.Write
import Directives.Proofs.Text.Lines

namespace Directives.EventLog

variable {tree : FileTree} {file : Path} {content front back line : Text} {events : List Event}
  {number : Nat} {lines before : List Text}

/-! ### Reading lines -/

/-- **A reader goes on** behind lines that are events. -/
theorem readLines_append (h : before.map Event.parse? = events.map some) (rest : List Text) :
    readLines file number (before ++ rest)
      = (readLines file (number + before.length) rest).map (events ++ ·) := by
  induction before generalizing number events with
  | nil =>
      obtain rfl := List.map_eq_nil_iff.mp h.symm
      rw [List.nil_append, List.length_nil, Nat.add_zero]
      cases readLines file number rest <;> rfl
  | cons line before ih =>
      cases events with
      | nil => cases h
      | cons event events =>
          obtain ⟨hline, hbefore⟩ := List.cons.inj h
          have hnumber : number + 1 + before.length = number + (line :: before).length := by
            rw [List.length_cons]
            omega
          rw [List.cons_append, readLines, hline]
          simp only [ih hbefore, hnumber]
          cases readLines file (number + (line :: before).length) rest <;> rfl

/-- Lines that are events are read. -/
lemma readLines_events (h : lines.map Event.parse? = events.map some) :
    readLines file number lines = .ok events := by
  have hread : readLines file number (lines ++ [])
      = (readLines file (number + lines.length) []).map (events ++ ·) := readLines_append h []
  rwa [List.append_nil, readLines, Except.map, List.append_nil] at hread

/-- Lines that are read are events. -/
lemma events_of_readLines (h : readLines file number lines = .ok events) :
    lines.map Event.parse? = events.map some := by
  induction lines generalizing number events with
  | nil =>
      rw [readLines, Except.ok.injEq] at h
      rw [← h]
      rfl
  | cons line rest ih =>
      rw [readLines] at h
      split at h
      · cases h
      · next event hline =>
          cases hrest : readLines file (number + 1) rest with
          | error failure =>
              rw [hrest] at h
              cases h
          | ok others =>
              rw [hrest, Except.map, Except.ok.injEq] at h
              rw [← h, List.map_cons, hline, ih hrest, List.map_cons]

/-- The events of a log are those of its records. -/
lemma readText_eq_ok_iff : readText file content = .ok events
    ↔ (records content).map Event.parse? = events.map some :=
  ⟨events_of_readLines, readLines_events⟩

/-- The records of whole lines stand in front of those of what is behind. -/
lemma records_append (h : front.Whole) (back : Text) :
    records (front ++ back) = records front ++ records back := by
  rw [records, h.lines_append, List.filter_append, ← records, ← records]

/-! ### Malformed lines -/

/-- A line at which a reader stops: it is not blank, and no event. -/
def isMalformed (line : Text) : Bool := !line.isBlankText && (Event.parse? line).isNone

/-- A line is the first malformed one of a log: whole lines of which none is malformed stand in
front of it. -/
structure FirstMalformed (content front line : Text) : Prop where
  whole : front.Whole
  sound : ∀ earlier ∈ front.lines, isMalformed earlier = false
  next : ∃ back, content = front ++ back ∧ back.lines.head? = some line
  malformed : isMalformed line = true

/-- Where no line is malformed, the records are events. -/
lemma exists_events (h : ∀ line ∈ content.lines, isMalformed line = false) :
    ∃ events : List Event, (records content).map Event.parse? = events.map some := by
  have hrecords : ∀ line ∈ records content, ∃ event, Event.parse? line = some event := by
    intro line hline
    obtain ⟨hmem, hblank⟩ := List.mem_filter.mp hline
    have hsound := h line hmem
    rw [isMalformed, hblank, Bool.true_and, Option.isNone_eq_false_iff] at hsound
    exact Option.isSome_iff_exists.mp hsound
  generalize records content = lines at hrecords ⊢
  induction lines with
  | nil => exact ⟨[], rfl⟩
  | cons line rest ih =>
      obtain ⟨⟨event, hevent⟩, hrest⟩ := List.forall_mem_cons.mp hrecords
      obtain ⟨events, hevents⟩ := ih hrest
      exact ⟨event :: events, by rw [List.map_cons, hevent, hevents, List.map_cons]⟩

/-- A log with a malformed line has a first one. -/
lemma exists_firstMalformed (h : ∃ line ∈ content.lines, isMalformed line = true) :
    ∃ front line, FirstMalformed content front line := by
  obtain ⟨line, hfind⟩ := Option.isSome_iff_exists.mp (List.find?_isSome.mpr h)
  obtain ⟨hline, before, behind, hlines, hbefore⟩ := List.find?_eq_some_iff_append.mp hfind
  obtain ⟨front, back, rfl, hwhole, hfront, hback⟩ := Text.exists_whole_of_lines hlines
  refine ⟨front, line, hwhole, fun earlier hearlier => ?_, ⟨back, rfl, ?_⟩, hline⟩
  · rw [hfront] at hearlier
    simpa using hbefore earlier hearlier
  · rw [hback, List.head?_cons]

/-- **The failure** is about the first malformed line, and gives it the number that it has
among the lines that are not blank. -/
theorem FirstMalformed.readText (h : FirstMalformed content front line) (file : Path) :
    EventLog.readText file content
      = .error (.malformedEvent ((records front).length + 1) file) := by
  obtain ⟨back, rfl, hhead⟩ := h.next
  obtain ⟨behind, hback⟩ : ∃ behind, back.lines = line :: behind :=
    ⟨_, (List.cons_head?_tail hhead).symm⟩
  obtain ⟨hline, hparse⟩ : line.isBlankText = false ∧ Event.parse? line = none := by
    simpa [isMalformed] using h.malformed
  obtain ⟨events, hevents⟩ := exists_events h.sound
  have hrecords : records back = line :: behind.filter (!·.isBlankText) := by
    rw [records, hback, List.filter_cons, hline]
    rfl
  rw [EventLog.readText, records_append h.whole, readLines_append hevents, hrecords, readLines,
    hparse, Nat.add_comm]
  rfl

/-- Lines are all counted where none is blank. -/
lemma length_records (h : front.Whole) : (records front).length = front.count '\n'
    ↔ ∀ earlier ∈ front.lines, earlier.isBlankText = false := by
  rw [records, ← h.length_lines, List.length_filter_eq_length_iff]
  simp

/-- **A log that cannot be read** has a line that is neither blank nor an event, and a log
that has one cannot be read. The failure gives the first of them the number that it has among
the lines that are not blank; that is one more than the number of line feeds in front of it
exactly when no line in front of it is blank. -/
theorem read_malformed (h : tree.readText file = .ok content) :
    ((∃ failure, read tree file = .error failure)
        ↔ ∃ line ∈ content.lines, isMalformed line = true)
      ∧ ((∃ failure, read tree file = .error failure)
        → ∃ front line, FirstMalformed content front line)
      ∧ ∀ front line, FirstMalformed content front line →
        read tree file = .error (.malformedEvent ((records front).length + 1) file)
          ∧ ((records front).length + 1 = front.count '\n' + 1
            ↔ ∀ earlier ∈ front.lines, earlier.isBlankText = false) := by
  have hread : read tree file = readText file content := by
    rw [read, h]
  have hiff : (∃ failure, read tree file = .error failure)
      ↔ ∃ line ∈ content.lines, isMalformed line = true := by
    constructor
    · rintro ⟨failure, hfailure⟩
      by_contra hnone
      have hsound : ∀ line ∈ content.lines, isMalformed line = false := fun line hline =>
        Bool.eq_false_iff.mpr fun hbad => hnone ⟨line, hline, hbad⟩
      obtain ⟨events, hevents⟩ := exists_events hsound
      rw [hread, readText_eq_ok_iff.mpr hevents] at hfailure
      cases hfailure
    · intro hsome
      obtain ⟨front, line, hfirst⟩ := exists_firstMalformed hsome
      exact ⟨_, hread.trans (hfirst.readText file)⟩
  refine ⟨hiff, fun hfailure => exists_firstMalformed (hiff.mp hfailure),
    fun front line hfirst => ?_⟩
  refine ⟨hread.trans (hfirst.readText file), ?_⟩
  rw [Nat.add_right_cancel_iff, length_records hfirst.whole]

/-! ### Blank lines in front -/

/-- An event and two blank lines, of which the second has an ending of two characters. -/
def gapFront : Text := "[\"1970-01-01T00:00:00Z\",\"lint\",\"me\",null,0]\n\n \t\r\n"

/-- The tree with a log that has one more line behind these, which is no event. -/
def gapTree : FileTree where
  entries := [(["log"], .file (.text (gapFront ++ "x\n".toList)))]

lemma firstMalformed_gap : FirstMalformed (gapFront ++ "x\n".toList) gapFront "x" where
  whole := by
    have hlast : gapFront.getLast? = some '\n' := by cbv
    simp [Text.Whole, hlast]
  sound := by
    have hall : gapFront.lines.all (!isMalformed ·) = true := by cbv
    simpa using hall
  next := ⟨"x\n", rfl, rfl⟩
  malformed := by cbv

/-- The line stands behind three line feeds, and the failure gives it the number two. -/
theorem read_malformed_gap :
    gapTree.readText "/log" = .ok (gapFront ++ "x\n".toList)
      ∧ FirstMalformed (gapFront ++ "x\n".toList) gapFront "x"
      ∧ read gapTree "/log" = .error (.malformedEvent 2 "/log")
      ∧ gapFront.count '\n' = 3 := by
  have hread : gapTree.readText "/log" = .ok (gapFront ++ "x\n".toList) := by cbv
  obtain ⟨-, -, hfirst⟩ := read_malformed hread
  exact ⟨hread, firstMalformed_gap, (hfirst gapFront "x" firstMalformed_gap).1, by decide⟩

/-- **The number of a failure** is not always that of the line in the file. -/
theorem read_malformed_astray : ¬ ∀ (tree : FileTree) (file : Path) (content front line : Text),
    tree.readText file = .ok content → FirstMalformed content front line →
    read tree file = .error (.malformedEvent (front.count '\n' + 1) file) := by
  intro numbers
  have hread : gapTree.readText "/log" = .ok (gapFront ++ "x\n".toList) := by cbv
  have hnumber := numbers gapTree "/log" _ gapFront "x" hread firstMalformed_gap
  have hfailure : read gapTree "/log" = .error (.malformedEvent 2 "/log") := by
    rw [read, hread]
    exact firstMalformed_gap.readText "/log"
  obtain ⟨hcount, -⟩ := Failure.malformedEvent.inj (Except.error.inj (hfailure.symm.trans hnumber))
  exact absurd hcount (by decide)

end Directives.EventLog
