/-
Configs with patterns that a scan takes.

A config is checked on its patterns as they are, and a scan reads them with slashes for their
backslashes. So a pattern may pass the check and be none for the scan: where it escapes a
bracket, the bracket opens a class. And a pattern whose last backslash escapes nothing is
refused by the check and taken by the scan.

* `Config.eq_of_validate`: a config that passes has patterns only.
* `Config.scan_validated`: when a scan takes the patterns of a config that passed.
* `Config.scan_validated_astray`: it does not always.
-/
import Directives.Config
import Directives.Proofs.Scan.Documents

namespace Directives.Config

open Glob (slashed Slashable)

lemma badGlob?_eq_none_iff {patterns : List Text} :
    badGlob? patterns = none ↔ ∀ pattern ∈ patterns, (Glob.parse pattern).isOk = true := by
  rw [badGlob?, List.findSome?_eq_none_iff]
  refine forall₂_congr fun pattern _ => ?_
  cases Glob.parse pattern <;> simp [Except.isOk, Except.toBool]

/-- A config that passes is kept, and all its patterns are patterns. -/
lemma eq_of_validate {c c' : Config} (h : c.validate = .ok c') :
    c' = c ∧ ∀ pattern ∈ c.scanGlobs, (Glob.parse pattern).isOk = true := by
  unfold validate at h
  split_ifs at h
  split at h
  · cases h
  · next hnone => exact ⟨(Except.ok.inj h).symm, badGlob?_eq_none_iff.mp hnone⟩

/-- **A scan with the patterns of a config that passed** has a bad pattern exactly if one of
them is none with slashes for its backslashes. It has none where slashes change no meaning. There
the check and the scan take the same texts for patterns but for a backslash at the end, and so
without that exception where there are no backslashes. -/
theorem scan_validated {c c' : Config} (h : c.validate = .ok c') (tree : FileTree) (root : Path) :
    ((∃ fault, ScanReport.ofDirectory tree root c'.scanGlobs = .error (.badScanGlob fault))
        ↔ ∃ pattern ∈ c'.scanGlobs, (Glob.parse (pattern.map slashed)).isOk = false)
      ∧ ((∀ pattern ∈ c'.scanGlobs, Slashable pattern) →
          ∀ fault, ScanReport.ofDirectory tree root c'.scanGlobs ≠ .error (.badScanGlob fault))
      ∧ (∀ pattern, Slashable pattern →
          ((Glob.parse (ScanReport.patternText pattern)).isOk = true
            ↔ (Glob.parse pattern).isOk = true
              ∨ ∃ front, pattern = front ++ ['\\'] ∧ (Glob.parse front).isOk = true))
      ∧ ∀ pattern, '\\' ∉ pattern →
          (Glob.parse (ScanReport.patternText pattern)).isOk = (Glob.parse pattern).isOk := by
  obtain ⟨rfl, hpatterns⟩ := eq_of_validate h
  have hbad := ScanReport.ofDirectory_badScanGlob_iff tree root c'.scanGlobs
  simp only [Glob.isOk_parse_patternText] at hbad
  refine ⟨hbad, fun hslashable fault hfault => ?_, fun pattern hslashable => ?_,
    fun pattern => Glob.isOk_parse_patternText_of_notMem⟩
  · obtain ⟨pattern, hpattern, hnone⟩ := hbad.mp ⟨fault, hfault⟩
    have htaken : (Glob.parse (pattern.map slashed)).isOk = true :=
      (Glob.isOk_parse_slashed (hslashable pattern hpattern)).mpr
        (.inl (hpatterns pattern hpattern))
    rw [hnone] at htaken
    cases htaken
  · rw [Glob.isOk_parse_patternText]
    exact Glob.isOk_parse_slashed hslashable

/-- A star that is escaped is a star behind a slash for a scan. -/
theorem scan_validated_star :
    ({ scanGlobs := ["docs\\*.md"] } : Config).validate = .ok { scanGlobs := ["docs\\*.md"] }
      ∧ ScanReport.ofDirectory {} ['/'] ["docs\\*.md"]
        ≠ .error (.badScanGlob ⟨"docs/*.md", .unclosedClass⟩) := by
  have hvalid : ({ scanGlobs := ["docs\\*.md"] } : Config).validate
      = .ok { scanGlobs := ["docs\\*.md"] } := rfl
  exact ⟨hvalid, (scan_validated hvalid {} ['/']).2.1 (by decide) _⟩

/-- **A bracket that is escaped** opens a class for a scan, which fails in any directory. -/
theorem scan_validated_astray :
    ¬ ∀ (c c' : Config) (tree : FileTree) (root : Path) (fault : Glob.Fault),
      c.validate = .ok c' →
        ScanReport.ofDirectory tree root c'.scanGlobs ≠ .error (.badScanGlob fault) := by
  intro h
  have hvalid : ({ scanGlobs := ["a\\["] } : Config).validate = .ok { scanGlobs := ["a\\["] } := rfl
  exact h _ _ {} ['/'] ⟨"a/[", .unclosedClass⟩ hvalid rfl

end Directives.Config
