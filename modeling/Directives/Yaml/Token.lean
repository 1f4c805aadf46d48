/-
Tokens of YAML text.

The structure that indentation gives to a text is made explicit here: a block
collection opens where a line is indented further than the last one and closes
where the indentation goes back. A key is recognised by the colon behind it, so
the tokens that open a mapping are put in front of the key afterwards; a key that
needs no question mark stands on one line and takes at most 1024 bytes.

* `Yaml.Token`, `Yaml.Style`: the tokens; how a scalar is written.
* `Yaml.Scan`: what is read so far; `Scan.step?` reads one more token.
* `Yaml.tokens?`: the tokens of a text.
-/
import Directives.Yaml.Scalar
import Directives.Yaml.Tag

namespace Directives.Yaml

/-- How a scalar is written. -/
inductive Style
  | plain
  | literal
  /-- Quoted, or folded over several lines. -/
  | other
  deriving Repr, DecidableEq

/-- A token of YAML text. -/
inductive Token
  | version (major minor : Nat)
  | tagHandle (handle : Text) (start : Tag)
  | documentStart
  | documentEnd
  | blockList
  | blockMap
  | blockEnd
  | flowListStart
  | flowListEnd
  | flowMapStart
  | flowMapEnd
  | entry
  | comma
  | key
  | value
  | alias (name : Text)
  | anchor (name : Text)
  | tag (handle : Text) (suffix : Tag)
  | scalar (style : Style) (text : Text)
  deriving Repr, DecidableEq

/-- A place where a key without question mark may have started. -/
structure SimpleKey where
  /-- Nothing but a key may stand there. -/
  required : Bool
  /-- The number of tokens before it. -/
  place : Nat
  position : Position

/-- A text that is read up to some place. -/
structure Scan where
  cursor : Cursor
  tokens : Array Token := #[]
  /-- The indentation of the innermost block collection. -/
  indent : Int := -1
  /-- The indentations of the collections around it, innermost first. -/
  outer : List Int := []
  /-- The possible key of the block context. -/
  blockKey : Option SimpleKey := none
  /-- The possible keys of the open flow collections, innermost first. -/
  flowKeys : List (Option SimpleKey) := []
  /-- A key without question mark may start here. -/
  keyAllowed : Bool := true

namespace Scan

/-- A flow collection is open. -/
def inFlow (s : Scan) : Bool := !s.flowKeys.isEmpty

/-- The column of the next character. -/
def column (s : Scan) : Nat := s.cursor.column

/-- Adds a token at the end. -/
def push (s : Scan) (t : Token) : Scan := { s with tokens := s.tokens.push t }

/-- Adds a token before the token of the given number. -/
def insert (s : Scan) (place : Nat) (t : Token) : Scan :=
  { s with tokens := s.tokens.insertIdxIfInBounds place t }

/-- The characters from here on. -/
def rest (s : Scan) : Text := s.cursor.rest

/-- Moves on by some characters. -/
def advance (s : Scan) (count : Nat) : Scan := { s with cursor := s.cursor.advance count }

/-! ### Simple keys -/

/-- The possible key of the innermost context. -/
def simpleKey (s : Scan) : Option SimpleKey :=
  match s.flowKeys with
  | [] => s.blockKey
  | key :: _ => key

/-- Sets the possible key of the innermost context. -/
def setSimpleKey (s : Scan) (key : Option SimpleKey) : Scan :=
  match s.flowKeys with
  | [] => { s with blockKey := key }
  | _ :: keys => { s with flowKeys := key :: keys }

/-- Gives up the possible key of the innermost context. One that is required
must not be given up. -/
def dropKey? (s : Scan) : Option Scan :=
  if s.simpleKey.any (·.required) then none else some (s.setSimpleKey none)

/-- Remembers that a key may start here. -/
def saveKey? (s : Scan) : Option Scan :=
  if s.keyAllowed then do
    let required := !s.inFlow && s.indent == (s.column : Int)
    return (← s.dropKey?).setSimpleKey (some ⟨required, s.tokens.size, s.cursor.position⟩)
  else
    some s

/-- A possible key that may still turn out to be one at the given place. -/
def fresh? (p : Position) : Option SimpleKey → Option (Option SimpleKey)
  | none => some none
  | some key =>
      if key.position.line < p.line || key.position.offset + 1024 < p.offset then
        if key.required then none else some none
      else
        some (some key)

/-- Gives up the possible keys that have become too long. -/
def dropStale? (s : Scan) : Option Scan := do
  let p := s.cursor.position
  return { s with blockKey := ← fresh? p s.blockKey, flowKeys := ← s.flowKeys.mapM (fresh? p) }

/-! ### Indentation -/

/-- Opens a block collection at a column, unless one is open there. Its token
goes before the token of the given number, or to the end. -/
def indentTo (s : Scan) (column : Nat) (place : Option Nat) (t : Token) : Scan :=
  if !s.inFlow && s.indent < (column : Int) then
    let s := { s with outer := s.indent :: s.outer, indent := column }
    match place with
    | some place => s.insert place t
    | none => s.push t
  else
    s

/-- Closes the block collections that are indented further than `column`, of
those at `indent` and the ones around it. -/
def closeBlocks (column : Int) (tokens : Array Token) (indent : Int) :
    List Int → Array Token × Int × List Int
  | [] => (tokens, indent, [])
  | next :: outer =>
      if column < indent then closeBlocks column (tokens.push .blockEnd) next outer
      else (tokens, indent, next :: outer)

/-- Closes the block collections that are indented further than `column`. -/
def unindentTo (s : Scan) (column : Int) : Scan :=
  if s.inFlow then s
  else
    let (tokens, indent, outer) := closeBlocks column s.tokens s.indent s.outer
    { s with tokens, indent, outer }

/-! ### Between tokens -/

/-- The text from the next token on, over blanks, comments and line breaks, with
its place, and whether a key may start there. Tabs count as blanks inside a flow
collection and behind the first token of a line only, a byte order mark only in
front of everything else on a line. -/
def skipBlanks (inFlow : Bool) (keyAllowed inComment : Bool) (p : Position) :
    Text → Cursor × Bool
  | [] => (⟨p, []⟩, keyAllowed)
  | c :: rest =>
      if isBreak c then skipBlanks inFlow (keyAllowed || !inFlow) false (p.after c) rest
      else if inComment || c == '#' then skipBlanks inFlow keyAllowed true (p.after c) rest
      else if c == ' ' || (c == '\t' && (inFlow || !keyAllowed))
          || (isByteOrderMark c && p.column == 0) then
        skipBlanks inFlow keyAllowed false (p.after c) rest
      else
        (⟨p, c :: rest⟩, keyAllowed)

/-! ### Names, tags and directives -/

/-- A character of an anchor, a tag handle or a directive's name. -/
def isWord (c : Char) : Bool := Text.isLetter c || Text.isDigit c || c == '_' || c == '-'

/-- A character of a tag, flow indicators apart. -/
def isTagChar (c : Char) : Bool := isWord c || c ∈ (";/?:@&=+$.%!~*'()" : Text)

/-- Reads an anchor or an alias, from behind its indicator. -/
def readName? (c : Cursor) : Option (Text × Cursor) :=
  let name := c.rest.takeWhile isWord
  let c := c.skipWhile isWord
  if !name.isEmpty && (atBlank c.rest || c.rest.head?.any (· ∈ ("?:,]\x7d%@`" : Text))) then
    some (name, c)
  else
    none

/-- The handle that a tag starts with: `!`, and perhaps a word and another `!`. -/
def tagHandle (text : Text) : Text :=
  match text with
  | '!' :: rest =>
      let word := rest.takeWhile isWord
      if (rest.dropWhile isWord).head? = some '!' then '!' :: (word ++ ['!']) else '!' :: word
  | _ => []

/-- A character of a tag that is given in full. -/
def isFullTagChar (c : Char) : Bool := isTagChar c || c ∈ (",[]" : Text)

/-- Reads a tag in full, from behind its opening bracket. -/
def readFullTag? (c : Cursor) : Option (Tag × Cursor) := do
  let written := c.rest.takeWhile isFullTagChar
  let c := c.skipWhile isFullTagChar
  if written.isEmpty || c.rest.head? != some '>' then none
  else return (← Tag.unescape? written, c.advance 1)

/-- Reads a tag. Its handle is empty if the tag is given in full. -/
def readTag? (inFlow : Bool) (c : Cursor) : Option (Token × Cursor) := do
  let (token, c) ←
    if (c.rest.drop 1).head? == some '<' then do
      let (tag, c) ← readFullTag? (c.advance 2)
      some (Token.tag [] tag, c)
    else
      let handle := tagHandle c.rest
      let isHandle := 1 < handle.length && handle.getLast? == some '!'
      let c := c.advance (if isHandle then handle.length else 1)
      let written := c.rest.takeWhile isTagChar
      let c := c.skipWhile isTagChar
      do
        let suffix ← Tag.unescape? written
        if isHandle then
          if written.isEmpty then none else some (Token.tag handle suffix, c)
        else if suffix.isEmpty then some (Token.tag [] .bare, c)
        else some (Token.tag ['!'] suffix, c)
  if atBlank c.rest || (inFlow && c.rest.head? == some ',') then some (token, c) else none

/-- Reads the version of a directive, up to what follows it. -/
def readVersion? (c : Cursor) : Option (Token × Cursor) := do
  let number (c : Cursor) : Option (Nat × Cursor) := do
    let digits := c.rest.takeWhile Text.isDigit
    if 9 < digits.length then none
    else return (← Text.toNat? 10 digits, c.skipWhile Text.isDigit)
  let (major, c) ← number c
  if c.rest.head? != some '.' then none
  else
    let (minor, c) ← number (c.advance 1)
    return (.version major minor, c)

/-- Reads the handle and the start of tags that a directive gives, up to what
follows them. -/
def readTagDirective? (c : Cursor) : Option (Token × Cursor) := do
  let handle := tagHandle c.rest
  if handle.isEmpty || handle.getLast? != some '!' then none
  else
    let c := c.advance handle.length
    if !c.rest.head?.any isSpace then none
    else
      let c := c.skipWhile isSpace
      let written := c.rest.takeWhile isFullTagChar
      let c := c.skipWhile isFullTagChar
      if written.isEmpty || !atBlank c.rest then none
      else return (.tagHandle handle (← Tag.unescape? written), c)

/-- Reads a directive, from its percent sign to the end of its line. -/
def readDirective? (c : Cursor) : Option (Token × Cursor) := do
  let c := c.advance 1
  let name := c.rest.takeWhile isWord
  let c := c.skipWhile isWord
  if !atBlank c.rest then none
  else
    let c := c.skipWhile isSpace
    let (token, c) ←
      if name = "YAML".toList then readVersion? c
      else if name = "TAG".toList then readTagDirective? c
      else none
    let c := c.skipWhile isSpace
    let c := if c.rest.head? = some '#' then c.skipWhile (!isBreak ·) else c
    if atLineEnd c.rest then return (token, c.advance 1) else none

/-! ### One token -/

/-- Opens a flow collection. -/
def openFlow? (s : Scan) (t : Token) : Option Scan := do
  let s ← s.saveKey?
  return { (s.push t).advance 1 with flowKeys := none :: s.flowKeys, keyAllowed := true }

/-- Closes a flow collection. -/
def closeFlow? (s : Scan) (t : Token) : Option Scan := do
  let s ← s.dropKey?
  return { (s.push t).advance 1 with flowKeys := s.flowKeys.drop 1, keyAllowed := false }

/-- Reads the indicator of a list entry in a block. -/
def entry? (s : Scan) : Option Scan := do
  let s ←
    if s.inFlow then some s
    else if s.keyAllowed then some (s.indentTo s.column none .blockList)
    else none
  let s ← s.dropKey?
  return { (s.push .entry).advance 1 with keyAllowed := true }

/-- Reads the indicator of a key. -/
def key? (s : Scan) : Option Scan := do
  let s ←
    if s.inFlow then some s
    else if s.keyAllowed then some (s.indentTo s.column none .blockMap)
    else none
  let s ← s.dropKey?
  return { (s.push .key).advance 1 with keyAllowed := !s.inFlow }

/-- Reads the indicator of a value. The possible key before it, if there is one,
is a key. -/
def value? (s : Scan) : Option Scan :=
  match s.simpleKey with
  | some key =>
      let s := s.insert key.place .key
      let s := s.indentTo key.position.column (some key.place) .blockMap
      some { ((s.setSimpleKey none).push .value).advance 1 with keyAllowed := false }
  | none =>
      if s.inFlow then some { (s.push .value).advance 1 with keyAllowed := false }
      else if s.keyAllowed then
        let s := s.indentTo s.column none .blockMap
        some { (s.push .value).advance 1 with keyAllowed := true }
      else none

/-- Adds a token that a key may start with, and goes on at `c`. -/
def addKeyStart? (s : Scan) (t : Token) (c : Cursor) : Option Scan := do
  let s ← s.saveKey?
  return { s.push t with cursor := c, keyAllowed := false }

/-- Ends all blocks and the possible key. -/
def endBlocks? (s : Scan) : Option Scan := do
  let s ← (s.unindentTo (-1)).dropKey?
  return { s with keyAllowed := false }

/-- A plain scalar may start with the characters from here. -/
def startsPlain (inFlow : Bool) : Text → Bool
  | [] => false
  | c :: rest =>
      (!atBlank [c] && c ∉ ("-?:,[]\x7b\x7d#&*!|>'\"%@`" : Text))
        || (c == '-' && !rest.head?.any isSpace)
        || (!inFlow && (c == '?' || c == ':') && !atBlank rest)

/-- Reads the token that starts with the characters from here. -/
def token? (s : Scan) : Option Scan :=
  match s.rest with
  | [] => none
  | c :: rest =>
      if s.column = 0 && c = '%' then do
        let s ← s.endBlocks?
        let (t, cursor) ← readDirective? s.cursor
        return { s.push t with cursor }
      else if atDocumentMark s.column (c :: rest) then do
        let s ← s.endBlocks?
        return (s.push (if c = '-' then .documentStart else .documentEnd)).advance 3
      else if c = '[' then s.openFlow? .flowListStart
      else if c = '{' then s.openFlow? .flowMapStart
      else if c = ']' then s.closeFlow? .flowListEnd
      else if c = '}' then s.closeFlow? .flowMapEnd
      else if c = ',' then do
        let s ← s.dropKey?
        return { (s.push .comma).advance 1 with keyAllowed := true }
      else if c = '-' && atBlank rest then s.entry?
      else if c = '?' && (s.inFlow || atBlank rest) then s.key?
      else if c = ':' && (s.inFlow || atBlank rest) then s.value?
      else if c = '*' then do
        let (name, cursor) ← readName? (s.cursor.advance 1)
        s.addKeyStart? (.alias name) cursor
      else if c = '&' then do
        let (name, cursor) ← readName? (s.cursor.advance 1)
        s.addKeyStart? (.anchor name) cursor
      else if c = '!' then do
        let (t, cursor) ← readTag? s.inFlow s.cursor
        s.addKeyStart? t cursor
      else if (c = '|' || c = '>') && !s.inFlow then do
        let s ← s.dropKey?
        let (text, cursor) ← scanBlock? (c == '|') s.indent (s.cursor.advance 1)
        let style := if c = '|' then Style.literal else .other
        return { s.push (.scalar style text) with cursor, keyAllowed := true }
      else if c = '\'' then do
        let (text, cursor) ← scanSingle? [] .empty (s.cursor.position.after c) rest
        s.addKeyStart? (.scalar .other text) cursor
      else if c = '"' then do
        let (text, cursor) ← scanDouble? [] .empty (s.cursor.position.after c) rest
        s.addKeyStart? (.scalar .other text) cursor
      else if startsPlain s.inFlow (c :: rest) then do
        let plain ← scanPlain? s.inFlow (s.indent + 1).toNat [] .empty s.cursor.position (c :: rest)
        let s ← s.addKeyStart? (.scalar .plain plain.text) plain.cursor
        return { s with keyAllowed := plain.endedLine }
      else none

/-- Goes on to the next token and reads it. At the end of the text, ends all
blocks instead. -/
def step? (s : Scan) : Option Scan := do
  let (cursor, keyAllowed) :=
    skipBlanks s.inFlow s.keyAllowed false s.cursor.position s.cursor.rest
  let s ← { s with cursor, keyAllowed }.dropStale?
  let s := s.unindentTo s.column
  if s.rest.isEmpty then s.endBlocks? else s.token?

/-- Reads tokens up to the end of the text. Every token takes a character at
least, so `bound` is the number of characters left and one more. -/
def run? : (bound : Nat) → Scan → Option Scan
  | 0, _ => none
  | bound + 1, s =>
      let atEnd := s.rest.isEmpty
      match s.step? with
      | none => none
      | some next => if atEnd then some next else run? bound next

end Scan

/-- The tokens of a prepared text, if it has any division into tokens. -/
def tokens? (text : Text) : Option (List Token) := do
  return (← Scan.run? (text.length + 1) { cursor := ⟨{}, text⟩ }).tokens.toList

end Directives.Yaml
