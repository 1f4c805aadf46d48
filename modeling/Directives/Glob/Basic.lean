/-
Globs: patterns of paths.

In a pattern `?` stands for one byte, `*` for any bytes, slashes among them, `**`
as a whole component for any number of components, `[...]` for a byte of a class
and `{a,b}` for one of several patterns; a backslash takes away the meaning of
the character behind it.

Only its syntax makes a text no pattern. That an engine may refuse a large pattern,
or one with alternatives nested deep, is left out: every pattern is taken to be one
that can be matched, alone and in a set of patterns.

* `Glob.Part`, `Glob`: a pattern in parts.
* `Glob.Fault`: why a text is no pattern; `Glob.Fault.message`.
* `Glob.parse`: the pattern of a text.
-/
import Directives.Text.Basic

namespace Directives

namespace Glob

/-- A part of a pattern. -/
inductive Part
  /-- The character itself. -/
  | literal (c : Char)
  /-- One byte. -/
  | any
  /-- Any bytes. -/
  | star
  /-- Any number of components in front. -/
  | leadingComponents
  /-- Any number of components behind, at least one. -/
  | trailingComponents
  /-- Any number of components between two others. -/
  | innerComponents
  /-- One byte of a class, or one that is not of it. -/
  | oneOf (negated : Bool) (ranges : List (Char × Char))
  /-- One of several patterns. -/
  | alternatives (branches : List (List Part))
  deriving Repr

/-- Why a text is no pattern. -/
inductive Cause
  | unclosedClass
  | invalidRange (low high : Char)
  | unopenedGroup
  | unclosedGroup
  | danglingEscape
  deriving Repr, DecidableEq

/-- The sentence about a cause. -/
def Cause.message : Cause → Text
  | unclosedClass => "unclosed character class; missing ']'"
  | invalidRange low high =>
      ("invalid range; '" : Text) ++ low :: ("' > '" : Text) ++ high :: ['\'']
  | unopenedGroup =>
      "unopened alternate group; missing '\x7b' (maybe escape '\x7d' with '[\x7d]'?)"
  | unclosedGroup =>
      "unclosed alternate group; missing '\x7d' (maybe escape '\x7b' with '[\x7b]'?)"
  | danglingEscape => "dangling '\\'"

/-- A text that is no pattern, with the cause. -/
structure Fault where
  pattern : Text
  cause : Cause
  deriving Repr, DecidableEq

/-- The sentence about a fault. -/
def Fault.message (f : Fault) : Text :=
  ("error parsing glob '" : Text) ++ f.pattern ++ "': " ++ f.cause.message

/-- A group that is open: the parts before it and the branches that are complete,
all of them last one first. -/
structure Group where
  outer : List Part
  branches : List (List Part)

/-- A pattern while it is read: the parts of the branch that is read now, last
one first, and the open groups, innermost first. -/
structure Open where
  parts : List Part := []
  groups : List Group := []

namespace Open

/-- Adds a part. -/
def push (o : Open) (part : Part) : Open := { o with parts := part :: o.parts }

/-- Opens a group. -/
def openGroup (o : Open) : Open := ⟨[], ⟨o.parts, []⟩ :: o.groups⟩

/-- Goes on to the next branch of the innermost group. Outside of groups a comma
stands for itself. -/
def comma (o : Open) : Open :=
  match o.groups with
  | [] => o.push (.literal ',')
  | group :: outer => ⟨[], ⟨group.outer, o.parts.reverse :: group.branches⟩ :: outer⟩

/-- Closes the innermost group. -/
def closeGroup (o : Open) : Except Cause Open :=
  match o.groups with
  | [] => .error .unopenedGroup
  | group :: outer =>
      .ok ⟨.alternatives (o.parts.reverse :: group.branches).reverse :: group.outer, outer⟩

/-- Puts a part for components in the place of the last part, which is a slash
unless it stands for components already. -/
def replaceSlash (o : Open) (part : Part) : Open :=
  match o.parts with
  | .leadingComponents :: rest => { o with parts := .leadingComponents :: rest }
  | .trailingComponents :: rest => { o with parts := .trailingComponents :: rest }
  | _ :: rest => { o with parts := part :: rest }
  | [] => { o with parts := [part] }

/-- Two stars behind `previous` may stand for components. -/
def mayRecur (o : Open) (previous : Option Char) : Bool :=
  previous == some '/' || (!o.groups.isEmpty && (previous == some ',' || previous == some '{'))

/-- The branch that is read now ends before the character. -/
def endsBranch (o : Open) (c : Char) : Bool := !o.groups.isEmpty && (c == ',' || c == '}')

end Open

/-- A class while it is read: the ranges, last one first. -/
structure Ranges where
  negated : Bool
  ranges : List (Char × Char) := []
  /-- The last character was a hyphen that may stand for a range. -/
  hyphen : Bool := false

namespace Ranges

/-- Adds a character, as the end of a range if a hyphen is before it. -/
def add (r : Ranges) (c : Char) : Except Cause Ranges :=
  match r.hyphen, r.ranges with
  | true, (low, _) :: rest =>
      if c < low then .error (.invalidRange low c)
      else .ok { r with ranges := (low, c) :: rest, hyphen := false }
  | _, ranges => .ok { r with ranges := (c, c) :: ranges, hyphen := false }

/-- The class. A hyphen at the end stands for itself. -/
def part (r : Ranges) : Part :=
  .oneOf r.negated ((if r.hyphen then ('-', '-') :: r.ranges else r.ranges).reverse)

end Ranges

mutual

/-- The parts of a pattern from here, behind the character `previous`. -/
def readParts (previous : Option Char) (o : Open) : Text → Except Cause (List Part)
  | [] => if o.groups.isEmpty then .ok o.parts.reverse else .error .unclosedGroup
  | '?' :: rest => readParts (some '?') (o.push .any) rest
  | '*' :: '*' :: rest =>
      if o.parts.isEmpty then
        match rest with
        | [] => readParts (some '*') (o.push .leadingComponents) []
        | '/' :: rest => readParts (some '/') (o.push .leadingComponents) rest
        | rest => readParts (some '*') ((o.push .star).push .star) rest
      else if o.mayRecur previous then
        match rest with
        | [] => readParts (some '*') (o.replaceSlash .trailingComponents) []
        | '/' :: rest => readParts (some '/') (o.replaceSlash .innerComponents) rest
        | c :: rest =>
            if o.endsBranch c then
              readParts (some '*') (o.replaceSlash .trailingComponents) (c :: rest)
            else
              readParts (some '*') ((o.push .star).push .star) (c :: rest)
      else
        readParts (some '*') ((o.push .star).push .star) rest
  | '*' :: rest => readParts (some '*') (o.push .star) rest
  | '[' :: '!' :: rest => readClass o { negated := true } rest
  | '[' :: '^' :: rest => readClass o { negated := true } rest
  | '[' :: rest => readClass o { negated := false } rest
  | '{' :: rest => readParts (some '{') o.openGroup rest
  | '}' :: rest => do readParts (some '}') (← o.closeGroup) rest
  | ',' :: rest => readParts (some ',') o.comma rest
  | ['\\'] => .error .danglingEscape
  | '\\' :: c :: rest => readParts (some c) (o.push (.literal c)) rest
  | c :: rest => readParts (some c) (o.push (.literal c)) rest

/-- The parts from behind the opening bracket of a class. Its first character
stands for itself. -/
def readClass (o : Open) (r : Ranges) : Text → Except Cause (List Part)
  | [] => .error .unclosedClass
  | c :: rest => do readRanges o (← r.add c) rest

/-- The parts from inside a class. -/
def readRanges (o : Open) (r : Ranges) : Text → Except Cause (List Part)
  | [] => .error .unclosedClass
  | ']' :: rest => readParts (some ']') (o.push r.part) rest
  | '-' :: rest => do
      if r.hyphen then readRanges o (← r.add '-') rest
      else readRanges o { r with hyphen := true } rest
  | c :: rest => do readRanges o (← r.add c) rest

end

end Glob

/-- A pattern of paths. -/
structure Glob where
  parts : List Glob.Part
  deriving Repr

/-- The pattern of a text. -/
def Glob.parse (pattern : Text) : Except Glob.Fault Glob :=
  match Glob.readParts none {} pattern with
  | .ok parts => .ok ⟨parts⟩
  | .error cause => .error ⟨pattern, cause⟩

end Directives
