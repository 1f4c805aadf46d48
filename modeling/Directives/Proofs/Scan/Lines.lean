/-
A scan goes through a text line by line.

A marker holds no blank, so none goes on behind the end of a line, and the characters that
end a line are part of none. So the markers of the lines of a text are those of the text,
and the number of a line is how many line feeds stand in front of it, whatever its ending.

* `Hit.ofMatch`: the hit for a marker of a text.
* `Hit.inLines_lines`: the hits in the lines of a text, behind some other text.
* `Hit.inText_eq_search`: the hits in a text.
-/
import Directives.Proofs.Store.MarkerSearch
import Directives.Proofs.Text
import Directives.Scan

namespace Directives.Hit

/-- The hit for a marker in the text: its line has one more than the number of line feeds in
front of the marker. -/
def ofMatch (file : Path) (text : Text) (m : Pattern.Match) : Hit :=
  ⟨file, 1 + (text.take m.start).count '\n', Marker.matchedName m⟩

/-- The markers in a line have as many line feeds in front of them as the line. -/
lemma ofMatch_of_unbroken {line : Text} (h : '\n' ∉ line) (file : Path) (before behind : Text)
    {m : Pattern.Match} (hm : m ∈ Marker.pattern.searchFrom 0 before.length line) :
    ofMatch file (before ++ (line ++ behind)) m
      = ⟨file, 1 + before.count '\n', Marker.matchedName m⟩ := by
  obtain ⟨place, name, rfl, hstands⟩ := Marker.mem_searchFrom_iff.mp hm
  have hfront : '\n' ∉ line.take place := fun hmem => h (List.mem_of_mem_take hmem)
  have hcount : ((before ++ (line ++ behind)).take (before.length + place)).count '\n'
      = before.count '\n' :=
    calc ((before ++ (line ++ behind)).take (before.length + place)).count '\n'
        = (before ++ line.take place).count '\n' := by
          rw [List.take_length_add_append, List.take_append_of_le_length hstands.place_lt.le]
      _ = before.count '\n' := by
          rw [List.count_append, List.count_eq_zero_of_not_mem hfront, Nat.add_zero]
  rw [ofMatch, Marker.matched, hcount]

/-- **The hits in the lines of a text** that stands behind another are the markers that a search
finds in it. -/
theorem inLines_lines (file : Path) (before text : Text) :
    inLines file (1 + before.count '\n') text.lines
      = (Marker.pattern.searchFrom 0 before.length text).map (ofMatch file (before ++ text)) := by
  -- the markers of a line, wherever it stands
  have hline : ∀ before line behind : Text, '\n' ∉ line →
      (Marker.find line).map (⟨file, 1 + before.count '\n', ·⟩)
        = (Marker.pattern.searchFrom 0 before.length line).map
            (ofMatch file (before ++ (line ++ behind))) := by
    intro before line behind h
    rw [Marker.find_eq_search line before.length, List.map_map]
    exact List.map_congr_left fun m hm => (ofMatch_of_unbroken h file before behind hm).symm
  induction text using Text.lines_induction generalizing before with
  | nil => rfl
  | line line h =>
      have h := hline before line [] h
      rw [List.append_nil] at h
      rw [inLines, inLines, List.append_nil, h]
  | cut front ending back hfront hending ih =>
      have hblank : ending ≠ [] ∧ ending.isBlankText = true ∧ ending.count '\n' = 1 := by
        rcases hending with rfl | rfl <;> decide
      obtain ⟨hne, hblank, hfeed⟩ := hblank
      have hcount : 1 + before.count '\n' + 1 = 1 + (before ++ (front ++ ending)).count '\n' := by
        rw [List.count_append, List.count_append, List.count_eq_zero_of_not_mem hfront, hfeed]
        omega
      have hlength : before.length + front.length + ending.length
          = (before ++ (front ++ ending)).length := by
        rw [List.length_append, List.length_append, Nat.add_assoc]
      have hback : before ++ (front ++ ending) ++ back = before ++ (front ++ (ending ++ back)) := by
        simp only [List.append_assoc]
      rw [inLines, hline before front (ending ++ back) hfront, hcount, ih, hback,
        Marker.searchFrom_append_blank hne hblank, List.map_append, hlength]

/-- **A scan finds the markers of a text**, as a search of the whole text does: those that stand in
it, from the left, and each in the line that has one more than the number of line feeds in
front of the marker. -/
theorem inText_eq_search (file : Path) (text : Text) :
    (inText file text).map Hit.name = Marker.find text
      ∧ inText file text = (Marker.pattern.search text).map (ofMatch file text)
      ∧ Marker.find text = (Marker.pattern.search text).map Marker.matchedName
      ∧ (∀ place name, Marker.matched place name ∈ Marker.pattern.search text
          ↔ Marker.StandsAt name place text)
      ∧ ((Marker.pattern.search text).map Pattern.Match.start).Pairwise (· < ·) := by
  have hfind : Marker.find text = (Marker.pattern.search text).map Marker.matchedName :=
    Marker.find_eq_search text 0
  have hhits : inText file text = (Marker.pattern.search text).map (ofMatch file text) :=
    inLines_lines file [] text
  refine ⟨?_, hhits, hfind, fun _ _ => Marker.matched_mem_search_iff,
    Marker.searchFrom_sorted 0 text⟩
  rw [hhits, hfind, List.map_map]
  rfl

/-- Line endings of two characters, a blank line, and a carriage return inside a line. -/
example : inText "out/a.md" "\x7ba?unresolved\x7d\r\n\r\n\x7bb?unresolved\x7d\r\x7bc?unresolved\x7d"
    = [⟨"out/a.md", 1, "a"⟩, ⟨"out/a.md", 3, "b"⟩, ⟨"out/a.md", 3, "c"⟩] := by
  decide

end Directives.Hit
