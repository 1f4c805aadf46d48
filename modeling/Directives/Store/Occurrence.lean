/-
References inside payload texts.

A reference occurrence is `{$`, blanks, a name, blanks and `}`, where a name is
an ASCII letter or underscore followed by ASCII letters, digits, underscores,
dots and hyphens. Other braces in a text are plain characters.

* `Occurrence`: the three variable parts of an occurrence, and `source`, the
  text it is written as.
* `Occurrence.read?`: the occurrence a text starts with.
* `Piece`: a plain character or an occurrence.
* `Piece.split`: the pieces of a text; `read?_length` makes it terminate.
-/
import Directives.Text.Blank

namespace Directives

/-- A reference as it is written inside a text. -/
structure Occurrence where
  /-- The blanks before the name. -/
  before : Text
  /-- The name. -/
  name : Text
  /-- The blanks after the name. -/
  after : Text
  deriving Repr, DecidableEq

namespace Occurrence

/-- A character a name may start with. -/
def isNameStart (c : Char) : Bool := Text.isLetter c || c == '_'

/-- A character a name may go on with. -/
def isNamePart (c : Char) : Bool :=
  isNameStart c || Text.isDigit c || c == '.' || c == '-'

/-- The text of an occurrence. -/
def source (o : Occurrence) : Text :=
  '{' :: '$' :: (o.before ++ o.name ++ o.after ++ ['}'])

/-- The occurrence after its first two characters, with the text behind it. -/
def readInside? (text : Text) : Option (Occurrence × Text) :=
  let named := text.dropWhile isBlank
  let closing := (named.dropWhile isNamePart).dropWhile isBlank
  if named.head?.any isNameStart then
    match closing with
    | '}' :: rest =>
        some (⟨text.takeWhile isBlank, named.takeWhile isNamePart,
          (named.dropWhile isNamePart).takeWhile isBlank⟩, rest)
    | _ => none
  else
    none

/-- The occurrence a text starts with, and the text behind it. -/
def read? : Text → Option (Occurrence × Text)
  | '{' :: '$' :: text => readInside? text
  | _ => none

/-- An occurrence is not empty, so the text behind it is shorter. -/
theorem read?_length {text rest : Text} {o : Occurrence} (h : read? text = some (o, rest)) :
    rest.length < text.length := by
  unfold read? at h
  split at h
  · rename_i text
    unfold readInside? at h
    have h1 := (List.dropWhile_sublist (l := text) isBlank).length_le
    have h2 := (List.dropWhile_sublist (l := text.dropWhile isBlank) isNamePart).length_le
    have h3 := (List.dropWhile_sublist
      (l := (text.dropWhile isBlank).dropWhile isNamePart) isBlank).length_le
    simp only at h
    split at h
    · split at h
      · rename_i heq
        simp only [heq, List.length_cons] at h3
        simp only [Option.some.injEq, Prod.mk.injEq] at h
        obtain ⟨_, rfl⟩ := h
        simp only [List.length_cons]
        omega
      · cases h
    · cases h
  · cases h

end Occurrence

/-- A text is a sequence of plain characters and reference occurrences. -/
inductive Piece
  | plain (c : Char)
  | occurrence (o : Occurrence)
  deriving Repr, DecidableEq

namespace Piece

/-- The text of a piece. -/
def source : Piece → Text
  | plain c => [c]
  | occurrence o => o.source

/-- The pieces of a text. Occurrences are taken from the left, as long as they
go, and what stands between them is plain. -/
def split (text : Text) : List Piece :=
  match h : Occurrence.read? text with
  | some (o, rest) =>
      have : rest.length < text.length := Occurrence.read?_length h
      occurrence o :: split rest
  | none =>
      match text with
      | [] => []
      | c :: rest => plain c :: split rest
termination_by text.length

end Piece

end Directives
