/-
The scalars of YAML text.

A scalar that goes over several lines is folded: one line feed between two words
becomes a space, and of more line feeds the first one goes away. Spaces around
line breaks never count. Quoted scalars end at their quote, plain ones before an
indicator or where the indentation ends, block scalars where the indentation
ends.

* `Yaml.Gap`: the spaces and breaks between two words, and the text they leave.
* `Yaml.scanPlain?`, `Yaml.scanSingle?`, `Yaml.scanDouble?`, `Yaml.scanBlock?`:
  the four notations, each from the place where its text starts.
-/
import Directives.Yaml.Source

namespace Directives.Yaml

/-! ### Folding -/

/-- What stands between two words of a scalar. -/
inductive Gap
  /-- Spaces and tabs on one line. -/
  | spaces (text : Text)
  /-- Line breaks, the first of them folded. -/
  | folded (first : Char) (rest : Text)
  /-- Line breaks after an escaped one, all of them kept. -/
  | kept (breaks : Text)
  deriving Repr, DecidableEq

namespace Gap

/-- Nothing at all. -/
def empty : Gap := spaces []

/-- The gap holds no character. -/
def isEmpty : Gap → Bool
  | spaces [] => true
  | _ => false

/-- The gap goes over a line break. -/
def breaksLine : Gap → Bool
  | spaces _ => false
  | _ => true

/-- The gap with one more space or tab. -/
def addSpace (c : Char) : Gap → Gap
  | spaces text => spaces (text ++ [c])
  | gap => gap

/-- The gap with one more line break. -/
def addBreak (c : Char) : Gap → Gap
  | spaces _ => folded c []
  | folded first rest => folded first (rest ++ [c])
  | kept breaks => kept (breaks ++ [c])

/-- The text that a gap leaves in a scalar. -/
def text : Gap → Text
  | spaces text => text
  | folded first rest =>
      if first = '\n' then (if rest.isEmpty then [' '] else rest) else first :: rest
  | kept breaks => breaks

end Gap

/-! ### Plain scalars -/

/-- A plain scalar that was read. -/
structure Plain where
  text : Text
  /-- The place where reading goes on. -/
  cursor : Cursor
  /-- Reading went over a line break after the last word. -/
  endedLine : Bool

/-- Reads a plain scalar, inside a flow collection or at an indentation. `read`
is its text so far, last character first. -/
def scanPlain? (inFlow : Bool) (indent : Nat) (read : Text) (gap : Gap) (p : Position) :
    Text → Option Plain
  | [] => some ⟨read.reverse, ⟨p, []⟩, gap.breaksLine⟩
  | c :: rest =>
      if isSpace c then
        if gap.breaksLine && p.column < indent && c == '\t' then none
        else scanPlain? inFlow indent read (gap.addSpace c) (p.after c) rest
      else if isBreak c then
        scanPlain? inFlow indent read (gap.addBreak c) (p.after c) rest
      else if !gap.isEmpty && ((!inFlow && p.column < indent)
          || atDocumentMark p.column (c :: rest) || c == '#') then
        some ⟨read.reverse, ⟨p, c :: rest⟩, gap.breaksLine⟩
      else if inFlow && c == ':' && rest.head?.any (· ∈ (",?[]\x7b\x7d" : Text)) then
        none
      else if (c == ':' && atBlank rest) || (inFlow && c ∈ (",[]\x7b\x7d" : Text)) then
        some ⟨read.reverse, ⟨p, c :: rest⟩, gap.breaksLine⟩
      else
        scanPlain? inFlow indent (c :: (gap.text.reverse ++ read)) .empty (p.after c) rest

/-! ### Quoted scalars -/

/-- Reads a scalar in single quotes, from behind the first one. A quote inside
is written twice. -/
def scanSingle? (read : Text) (gap : Gap) (p : Position) : Text → Option (Text × Cursor)
  | [] => none
  | c :: rest =>
      if isSpace c then scanSingle? read (gap.addSpace c) (p.after c) rest
      else if isBreak c then scanSingle? read (gap.addBreak c) (p.after c) rest
      else if atDocumentMark p.column (c :: rest) then none
      else
        let read := gap.text.reverse ++ read
        if c = '\'' then
          match rest with
          | '\'' :: rest =>
              scanSingle? ('\'' :: read) .empty ((p.after '\'').after '\'') rest
          | rest => some (read.reverse, ⟨p.after c, rest⟩)
        else
          scanSingle? (c :: read) .empty (p.after c) rest

/-- The character of a one-letter escape. -/
def escape? (c : Char) : Option Char :=
  match c with
  | '0' => some '\x00'
  | 'a' => some '\x07'
  | 'b' => some '\x08'
  | 't' => some '\t'
  | '\t' => some '\t'
  | 'n' => some '\n'
  | 'v' => some '\x0b'
  | 'f' => some '\x0c'
  | 'r' => some '\r'
  | 'e' => some '\x1b'
  | ' ' => some ' '
  | '"' => some '"'
  | '/' => some '/'
  | '\\' => some '\\'
  | 'N' => some '\u0085'
  | '_' => some '\u00a0'
  | 'L' => some '\u2028'
  | 'P' => some '\u2029'
  | _ => none

/-- The number of digits of a numeric escape. -/
def escapeDigits? (c : Char) : Option Nat :=
  match c with
  | 'x' => some 2
  | 'u' => some 4
  | 'U' => some 8
  | _ => none

mutual

/-- Reads a scalar in double quotes, from behind the first one. -/
def scanDouble? (read : Text) (gap : Gap) (p : Position) : Text → Option (Text × Cursor)
  | [] => none
  | c :: rest =>
      if isSpace c then scanDouble? read (gap.addSpace c) (p.after c) rest
      else if isBreak c then scanDouble? read (gap.addBreak c) (p.after c) rest
      else if atDocumentMark p.column (c :: rest) then none
      else if c = '"' then some ((gap.text.reverse ++ read).reverse, ⟨p.after c, rest⟩)
      else if c = '\\' then scanEscape? (gap.text.reverse ++ read) (p.after c) rest
      else scanDouble? (c :: (gap.text.reverse ++ read)) .empty (p.after c) rest

/-- Reads on behind a backslash. An escaped line break leaves nothing of itself. -/
def scanEscape? (read : Text) (p : Position) : Text → Option (Text × Cursor)
  | [] => none
  | c :: rest =>
      if isBreak c then scanDouble? read (.kept []) (p.after c) rest
      else
        match escapeDigits? c with
        | some digits => scanDigits? digits 0 read (p.after c) rest
        | none =>
            match escape? c with
            | some e => scanDouble? (e :: read) .empty (p.after c) rest
            | none => none

/-- Reads the digits of a numeric escape, and on behind them. -/
def scanDigits? (digits : Nat) (value : Nat) (read : Text) (p : Position) :
    Text → Option (Text × Cursor)
  | [] => none
  | c :: rest =>
      match Text.digitValue? 16 c with
      | none => none
      | some digit =>
          let value := value * 16 + digit
          if 1 < digits then scanDigits? (digits - 1) value read (p.after c) rest
          else if Nat.isValidChar value then
            scanDouble? (Char.ofNat value :: read) .empty (p.after c) rest
          else none

end

/-! ### Block scalars -/

/-- A line of a text and the break that ends it. -/
structure Line where
  content : Text
  ending : Option Char
  deriving Repr, DecidableEq

/-- Puts a character in front of the first line. -/
def onFirst (c : Char) : List Line → List Line
  | [] => [⟨[c], none⟩]
  | line :: rest => { line with content := c :: line.content } :: rest

/-- The lines of a text. What follows the last break is a line too. -/
def linesOf : Text → List Line
  | [] => [⟨[], none⟩]
  | c :: rest => if isBreak c then ⟨[], some c⟩ :: linesOf rest else onFirst c (linesOf rest)

/-- What becomes of the line breaks at the end of a block scalar. -/
inductive Chomping
  | strip
  | clip
  | keep
  deriving Repr, DecidableEq

/-- The notation of a block scalar. -/
structure BlockHeader where
  /-- Line breaks stand for themselves. -/
  literal : Bool
  chomping : Chomping
  /-- The indentation of the text, where the header gives it. -/
  indent : Option Nat
  /-- The least indentation the text may have. -/
  least : Nat

/-- A block scalar while it is read. -/
structure BlockState where
  /-- The text so far, last character first. -/
  read : Text := []
  /-- The break of the last line with text. -/
  leading : Option Char := none
  /-- The breaks of the empty lines since then. -/
  trailing : Text := []
  /-- The last line with text started with a space. -/
  leadingSpace : Bool := false
  /-- The indentation, once it is known. -/
  indent : Option Nat
  /-- The widest empty line before the indentation is known. -/
  widest : Nat := 0
  /-- The number of characters read. -/
  consumed : Nat := 0

/-- The state after an empty line of the given width. -/
def BlockState.skipLine (s : BlockState) (width : Nat) (ending : Char) : BlockState :=
  { s with trailing := s.trailing ++ [ending], widest := max s.widest width,
           consumed := s.consumed + width + 1 }

/-- The breaks before a line with text. A single line feed between two lines that
do not start with a space is folded. -/
def BlockState.joint (s : BlockState) (literal startsWithSpace : Bool) : Text :=
  if !literal && s.leading == some '\n' && !s.leadingSpace && !startsWithSpace then
    if s.trailing.isEmpty then [' '] else s.trailing
  else
    s.leading.toList ++ s.trailing

/-- The state after a line with text. -/
def BlockState.addLine (s : BlockState) (literal : Bool) (width : Nat) (content : Text)
    (ending : Option Char) : BlockState :=
  let startsWithSpace := content.head?.any isSpace
  { s with read := content.reverse ++ ((s.joint literal startsWithSpace).reverse ++ s.read),
           leading := ending, trailing := [], leadingSpace := startsWithSpace,
           indent := some width,
           consumed := s.consumed + width + content.length + ending.toList.length }

/-- The text of a block scalar whose lines are read. -/
def BlockState.text (s : BlockState) (chomping : Chomping) : Text :=
  s.read.reverse ++
    match chomping with
    | .strip => []
    | .clip => s.leading.toList
    | .keep => s.leading.toList ++ s.trailing

/-- Reads the lines of a block scalar. The result is the text and the number of
characters it takes. -/
def scanLines? (h : BlockHeader) (s : BlockState) : List Line → Option (Text × Nat)
  | [] => some (s.text h.chomping, s.consumed)
  | line :: rest =>
      let spaces := (line.content.takeWhile (· == ' ')).length
      let width := match s.indent with
        | some indent => min indent spaces
        | none => spaces
      let content := line.content.drop width
      if s.indent.all (width < ·) && content.head? == some '\t' then none
      else
        match content, line.ending with
        | [], some ending => scanLines? h (s.skipLine width ending) rest
        | content, ending =>
            let indent := s.indent.getD (max (max s.widest width) h.least)
            if width = indent && !content.isEmpty then
              scanLines? h (s.addLine h.literal width content ending) rest
            else
              some (s.text h.chomping, s.consumed + width)

/-- The chomping of an indicator. -/
def chomping? (c : Char) : Option Chomping :=
  if c = '+' then some .keep else if c = '-' then some .strip else none

/-- The indicators of a block scalar in either order, and the text after them. -/
def blockIndicators : Text → Option Chomping × Option Nat × Text
  | [] => (none, none, [])
  | c :: rest =>
      match chomping? c, Text.digitValue? 10 c with
      | some chomping, _ =>
          match rest with
          | d :: tail =>
              match Text.digitValue? 10 d with
              | some digit => (some chomping, some digit, tail)
              | none => (some chomping, none, rest)
          | [] => (some chomping, none, [])
      | none, some digit =>
          match rest with
          | d :: tail =>
              match chomping? d with
              | some chomping => (some chomping, some digit, tail)
              | none => (none, some digit, rest)
          | [] => (none, some digit, [])
      | none, none => (none, none, c :: rest)

/-- Reads a block scalar from behind its first indicator, inside a collection of
the given indentation. -/
def scanBlock? (literal : Bool) (indent : Int) (c : Cursor) : Option (Text × Cursor) :=
  let (chomping, digit, rest) := blockIndicators c.rest
  if digit = some 0 then none
  else
    let c := (c.advance (c.rest.length - rest.length)).skipWhile isSpace
    let c := if c.rest.head? = some '#' then c.skipWhile (!isBreak ·) else c
    if !atLineEnd c.rest then none
    else
      let c := c.advance 1
      let header : BlockHeader :=
        { literal, chomping := chomping.getD .clip,
          indent := digit.map fun digit => if 0 ≤ indent then indent.toNat + digit else digit,
          least := max (indent + 1).toNat 1 }
      do
        let (text, consumed) ← scanLines? header { indent := header.indent } (linesOf c.rest)
        return (text, c.advance consumed)

end Directives.Yaml
