/-
The tree of a YAML document.

* `Yaml.Node`: scalars, lists, maps, and references to anchored nodes.
* `Yaml.Tags`: what the handles of tags stand for.
* `Yaml.node?`: the node that tokens start with, with the tokens behind it; each
  reader returns fewer tokens than it was given, which makes it terminate.
* `Yaml.document?`: the node of a text with at most one document.
-/
import Directives.Yaml.Token

namespace Directives.Yaml

/-- A node of a document, with references of some type. -/
inductive Node (ref : Type)
  | scalar (tag : Option Tag) (style : Style) (text : Text)
  | list (tag : Option Tag) (items : List (Node ref))
  | map (tag : Option Tag) (entries : List (Node ref × Node ref))
  /-- A node that other nodes may refer to. -/
  | anchored (name : Text) (node : Node ref)
  /-- A reference to an anchored node. -/
  | alias (target : ref)
  deriving Repr

/-- What tag handles stand for. -/
abbrev Tags := List (Text × Tag)

/-- The handles that every document knows. -/
def Tags.standard : Tags := [(['!'], .bare), (['!', '!'], .coreStart)]

/-- The tag of a handle and a suffix, if the handle is known. -/
def Tags.resolve? (tags : Tags) (handle : Text) (suffix : Tag) : Option Tag :=
  if handle.isEmpty then some suffix else (tags.lookup handle).map (·.append suffix)

/-- The anchor and the tag in front of a node. -/
structure Properties where
  anchor : Option Text := none
  tag : Option (Text × Tag) := none

namespace Properties

/-- The node has an anchor or a tag. -/
def isGiven (p : Properties) : Bool := p.anchor.isSome || p.tag.isSome

/-- The anchor and the tag that tokens start with, in either order. -/
def read : List Token → Properties × List Token
  | .anchor name :: .tag handle suffix :: rest => (⟨some name, some (handle, suffix)⟩, rest)
  | .tag handle suffix :: .anchor name :: rest => (⟨some name, some (handle, suffix)⟩, rest)
  | .anchor name :: rest => (⟨some name, none⟩, rest)
  | .tag handle suffix :: rest => (⟨none, some (handle, suffix)⟩, rest)
  | rest => ({}, rest)

/-- Reading properties takes no token away but theirs. -/
theorem read_length (tokens : List Token) : (read tokens).2.length ≤ tokens.length := by
  unfold read
  split <;> simp <;> omega

/-- Properties that are given take a token at least. -/
theorem read_length_lt (tokens : List Token) (h : (read tokens).1.isGiven = true) :
    (read tokens).2.length < tokens.length := by
  revert h
  unfold read
  split <;> intro h
  case h_5 => simp [isGiven] at h
  all_goals simp only [List.length_cons]; omega

/-- The tag, if its handle is known. -/
def tag? (p : Properties) (tags : Tags) : Option (Option Tag) :=
  match p.tag with
  | none => some none
  | some (handle, suffix) => (tags.resolve? handle suffix).map some

/-- The node under the anchor, if there is one. -/
def anchoring {ref : Type} (p : Properties) (node : Node ref) : Node ref :=
  match p.anchor with
  | none => node
  | some name => .anchored name node

end Properties

/-- The node that stands where a text has none. -/
def emptyNode : Node Text := .scalar none .plain []

/-- Tokens that are fewer than a given number. -/
abbrev Fewer (n : Nat) := { rest : List Token // rest.length < n }

/-- Tokens that are at most a given number. -/
abbrev AtMost (n : Nat) := { rest : List Token // rest.length ≤ n }

/-- The first token, if there is one, satisfies `p`. -/
def startsWith (p : Token → Bool) (tokens : List Token) : Bool := tokens.head?.any p

/-- A token that ends a member of a block map. -/
def endsMember (t : Token) : Bool := t == .key || t == .value || t == .blockEnd

/-- A token that ends an entry of a block list. -/
def endsEntry (t : Token) : Bool := t == .entry || t == .blockEnd

/-- A token that ends an entry of a list without indentation. -/
def endsBareEntry (t : Token) : Bool := endsMember t || t == .entry

/-- A token that ends an item of a flow list. -/
def endsItem (t : Token) : Bool := t == .comma || t == .flowListEnd

/-- A token that ends a member of a flow map. -/
def endsField (t : Token) : Bool := t == .comma || t == .flowMapEnd

mutual

/-- The node that tokens start with. A block collection may stand only where
`block` holds, and a block list without indentation of its own only where `bare`
holds. -/
def node? (tags : Tags) (block bare : Bool) (tokens : List Token) :
    Option (Node Text × Fewer tokens.length) :=
  match tokens with
  | .alias name :: rest => some (.alias name, ⟨rest, by simp⟩)
  | tokens => do
      let properties := (Properties.read tokens).1
      let tag ← properties.tag? tags
      have shorter := Properties.read_length tokens
      match h : (Properties.read tokens).2 with
      | .scalar style text :: rest =>
          have : rest.length < tokens.length := by simp [h] at shorter; omega
          return (properties.anchoring (.scalar tag style text), ⟨rest, this⟩)
      | .flowListStart :: rest =>
          have : rest.length < tokens.length := by simp [h] at shorter; omega
          let (items, ⟨after, _⟩) ← flowItems? tags true rest
          return (properties.anchoring (.list tag items), ⟨after, by omega⟩)
      | .flowMapStart :: rest =>
          have : rest.length < tokens.length := by simp [h] at shorter; omega
          let (entries, ⟨after, _⟩) ← flowFields? tags true rest
          return (properties.anchoring (.map tag entries), ⟨after, by omega⟩)
      | .blockList :: rest =>
          have : rest.length < tokens.length := by simp [h] at shorter; omega
          if block then
            let (items, ⟨after, _⟩) ← entries? tags rest
            return (properties.anchoring (.list tag items), ⟨after, by omega⟩)
          else none
      | .blockMap :: rest =>
          have : rest.length < tokens.length := by simp [h] at shorter; omega
          if block then
            let (entries, ⟨after, _⟩) ← members? tags rest
            return (properties.anchoring (.map tag entries), ⟨after, by omega⟩)
          else none
      | .entry :: rest =>
          have : rest.length < tokens.length := by simp [h] at shorter; omega
          if bare then
            let (item, ⟨after, _⟩) ← nodeOr? tags endsBareEntry true false rest
            let (items, ⟨beyond, _⟩) ← bareEntries? tags after
            return (properties.anchoring (.list tag (item :: items)), ⟨beyond, by omega⟩)
          else if given : properties.isGiven then
            return (properties.anchoring (.scalar tag .plain []),
              ⟨.entry :: rest, h ▸ Properties.read_length_lt tokens given⟩)
          else none
      | rest =>
          if given : properties.isGiven then
            return (properties.anchoring (.scalar tag .plain []),
              ⟨rest, h ▸ Properties.read_length_lt tokens given⟩)
          else none
termination_by (tokens.length, 0)

/-- The node that tokens start with, or the empty node before a token that
satisfies `ends`. -/
def nodeOr? (tags : Tags) (ends : Token → Bool) (block bare : Bool) (tokens : List Token) :
    Option (Node Text × AtMost tokens.length) :=
  if startsWith ends tokens then some (emptyNode, ⟨tokens, Nat.le_refl _⟩)
  else do
    let (node, ⟨rest, _⟩) ← node? tags block bare tokens
    return (node, ⟨rest, by omega⟩)
termination_by (tokens.length, 1)

/-- The entries of a block list, up to its end. -/
def entries? (tags : Tags) (tokens : List Token) :
    Option (List (Node Text) × Fewer tokens.length) :=
  match tokens with
  | .blockEnd :: rest => some ([], ⟨rest, by simp⟩)
  | .entry :: rest => do
      let (item, ⟨after, _⟩) ← nodeOr? tags endsEntry true false rest
      let (items, ⟨beyond, _⟩) ← entries? tags after
      return (item :: items, ⟨beyond, by simp only [List.length_cons]; omega⟩)
  | _ => none
termination_by (tokens.length, 0)
decreasing_by all_goals simp_wf; omega

/-- The further entries of a block list without indentation of its own. -/
def bareEntries? (tags : Tags) (tokens : List Token) :
    Option (List (Node Text) × AtMost tokens.length) :=
  match tokens with
  | .entry :: rest => do
      let (item, ⟨after, _⟩) ← nodeOr? tags endsBareEntry true false rest
      let (items, ⟨beyond, _⟩) ← bareEntries? tags after
      return (item :: items, ⟨beyond, by simp only [List.length_cons]; omega⟩)
  | rest => some ([], ⟨rest, Nat.le_refl _⟩)
termination_by (tokens.length, 0)
decreasing_by all_goals simp_wf; omega

/-- The value behind a key, which is empty unless its indicator stands there. -/
def valueOr? (tags : Tags) (ends : Token → Bool) (block bare : Bool) (tokens : List Token) :
    Option (Node Text × AtMost tokens.length) :=
  match tokens with
  | .value :: rest => do
      let (node, ⟨after, _⟩) ← nodeOr? tags ends block bare rest
      return (node, ⟨after, by simp only [List.length_cons]; omega⟩)
  | rest => some (emptyNode, ⟨rest, Nat.le_refl _⟩)
termination_by (tokens.length, 2)

/-- The members of a block map, up to its end. -/
def members? (tags : Tags) (tokens : List Token) :
    Option (List (Node Text × Node Text) × Fewer tokens.length) :=
  match tokens with
  | .blockEnd :: rest => some ([], ⟨rest, by simp⟩)
  | .key :: rest => do
      let (key, ⟨after, _⟩) ← nodeOr? tags endsMember true true rest
      let (value, ⟨beyond, _⟩) ← valueOr? tags endsMember true true after
      let (entries, ⟨behind, _⟩) ← members? tags beyond
      return ((key, value) :: entries, ⟨behind, by simp only [List.length_cons]; omega⟩)
  | _ => none
termination_by (tokens.length, 0)
decreasing_by all_goals simp_wf; omega

/-- The pair that a key indicator opens inside a flow list. Where the key is left
out, so is the token behind the indicator. -/
def pair? (tags : Tags) (tokens : List Token) : Option (Node Text × AtMost tokens.length) := do
  let (key, ⟨rest, _⟩) ←
    (if startsWith (fun t => t == .value || endsItem t) tokens then
      some (emptyNode, (⟨tokens.drop 1, by simp⟩ : AtMost tokens.length))
    else do
      let (node, ⟨rest, _⟩) ← node? tags false false tokens
      return (node, (⟨rest, by omega⟩ : AtMost tokens.length)))
  let (value, ⟨after, _⟩) ← valueOr? tags endsItem false false rest
  return (.map none [(key, value)], ⟨after, by omega⟩)
termination_by (tokens.length, 3)
decreasing_by
  · exact Prod.Lex.right _ (by omega)
  · simp only [Prod.lex_def]; omega

/-- The items of a flow list, up to its end. -/
def flowItems? (tags : Tags) (isFirst : Bool) (tokens : List Token) :
    Option (List (Node Text) × Fewer tokens.length) :=
  match tokens with
  | .flowListEnd :: rest => some ([], ⟨rest, by simp⟩)
  | tokens => do
      let next ←
        (if isFirst then some (⟨tokens, Nat.le_refl _⟩ : AtMost tokens.length)
        else match tokens with
          | .comma :: rest => some ⟨rest, by simp⟩
          | _ => none)
      have le := next.property
      match h : next.val with
      | .flowListEnd :: rest => return ([], ⟨rest, by simp [h] at le; omega⟩)
      | .key :: rest =>
          have : rest.length < tokens.length := by simp [h] at le; omega
          let (item, ⟨after, _⟩) ← pair? tags rest
          let (items, ⟨beyond, _⟩) ← flowItems? tags false after
          return (item :: items, ⟨beyond, by omega⟩)
      | rest =>
          have : rest.length ≤ tokens.length := h ▸ le
          let (item, ⟨after, _⟩) ← node? tags false false rest
          let (items, ⟨beyond, _⟩) ← flowItems? tags false after
          return (item :: items, ⟨beyond, by omega⟩)
termination_by (tokens.length, 1)
decreasing_by all_goals (simp only [Prod.lex_def]; omega)

/-- The members of a flow map, up to its end. -/
def flowFields? (tags : Tags) (isFirst : Bool) (tokens : List Token) :
    Option (List (Node Text × Node Text) × Fewer tokens.length) :=
  match tokens with
  | .flowMapEnd :: rest => some ([], ⟨rest, by simp⟩)
  | tokens => do
      let next ←
        (if isFirst then some (⟨tokens, Nat.le_refl _⟩ : AtMost tokens.length)
        else match tokens with
          | .comma :: rest => some ⟨rest, by simp⟩
          | _ => none)
      have le := next.property
      match h : next.val with
      | .flowMapEnd :: rest => return ([], ⟨rest, by simp [h] at le; omega⟩)
      | .key :: rest =>
          have : rest.length < tokens.length := by simp [h] at le; omega
          let (key, ⟨after, _⟩) ← nodeOr? tags (fun t => t == .value || endsField t) false false rest
          let (value, ⟨beyond, _⟩) ← valueOr? tags endsField false false after
          let (fields, ⟨behind, _⟩) ← flowFields? tags false beyond
          return ((key, value) :: fields, ⟨behind, by omega⟩)
      | rest =>
          have : rest.length ≤ tokens.length := h ▸ le
          let (key, ⟨after, _⟩) ← node? tags false false rest
          let (fields, ⟨beyond, _⟩) ← flowFields? tags false after
          return ((key, emptyNode) :: fields, ⟨beyond, by omega⟩)
termination_by (tokens.length, 1)
decreasing_by all_goals (simp only [Prod.lex_def]; omega)

end

/-! ### Documents -/

/-- The tags that the directives in front of a document give, and the tokens
behind them. Versions other than 1.1 and 1.2, a second version and a handle given
twice are malformed. -/
def directives? (versionSeen : Bool) (tags : Tags) : List Token → Option (Tags × List Token)
  | .version major minor :: rest =>
      if versionSeen || major != 1 || (minor != 1 && minor != 2) then none
      else directives? true tags rest
  | .tagHandle handle start :: rest =>
      if (tags.lookup handle).isSome then none
      else directives? versionSeen (tags ++ [(handle, start)]) rest
  | rest => some (tags, rest)

/-- A token that belongs to the frame of a document. -/
def isFrame : Token → Bool
  | .version _ _ => true
  | .tagHandle _ _ => true
  | .documentStart => true
  | .documentEnd => true
  | _ => false

/-- The node of a document and the tokens behind it. -/
def content? (tags : Tags) (tokens : List Token) : Option (Node Text × List Token) := do
  let (node, ⟨rest, _⟩) ← node? (tags ++ Tags.standard) true false tokens
  return (node, rest)

/-- The node of tokens with at most one document. A document without content and
tokens without a document count as the empty node. -/
def ofTokens? (tokens : List Token) : Option (Node Text) := do
  let (node, rest) ←
    if tokens.isEmpty then some (emptyNode, [])
    else
      match ← directives? false [] tokens with
      | (tags, .documentStart :: rest) =>
          if rest.isEmpty || startsWith isFrame rest then some (emptyNode, rest)
          else content? tags rest
      | (_, rest) => if rest.length < tokens.length then none else content? [] rest
  if (rest.dropWhile (· == .documentEnd)).isEmpty then some node else none

/-- The node of a text with at most one document, if the text is well formed. -/
def document? (text : Text) : Option (Node Text) := do
  ofTokens? (← tokens? (← prepare? text))

end Directives.Yaml
