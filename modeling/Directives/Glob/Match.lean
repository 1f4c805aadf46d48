/-
Matching paths against globs.

Paths are compared as the bytes of their UTF-8 form. A part of a pattern takes
bytes from the front of what is left, and what it may leave behind is a set of
endings; a pattern matches if nothing may be left in the end. A class of
characters beyond ASCII holds the bytes of these characters.

* `Glob.Part.leave`: the endings that a part may leave.
* `Glob.isMatch`: the pattern matches the whole path.
-/
import Directives.Glob.Basic

namespace Directives

namespace Glob

/-- The bytes of a text. -/
def bytes (text : Text) : List UInt8 := (String.ofList text).toUTF8.data.toList

/-- All endings of a list, itself and the empty one among them. -/
def endings {α : Type} : List α → List (List α)
  | [] => [[]]
  | x :: rest => (x :: rest) :: endings rest

/-- The endings behind a slash. -/
def endingsBehindSlash : List UInt8 → List (List UInt8)
  | [] => []
  | b :: rest => if b = 47 then rest :: endingsBehindSlash rest else endingsBehindSlash rest

/-- The endings without those as long as one before them. -/
def distinct (rests : List (List UInt8)) : List (List UInt8) :=
  rests.eraseDupsBy fun a b => a.length == b.length

/-- The bytes that a range of characters puts into a class: those of its ends,
with everything between the last one of the first and the first one of the last. -/
def rangeHolds (range : Char × Char) (b : UInt8) : Bool :=
  let low := bytes [range.1]
  let high := bytes [range.2]
  if range.1 = range.2 then b ∈ low
  else b ∈ low || b ∈ high || (low.getLastD 0 ≤ b && b ≤ high.headD 0)

/-- The rest of a list behind another one, if it starts with that. -/
def behind (start rest : List UInt8) : List (List UInt8) := (start.isPrefixOf? rest).toList

mutual

/-- A part that is a group of void branches. It takes no bytes. -/
def Part.isVoid : Part → Bool
  | .alternatives branches => allBranchesVoid branches
  | _ => false

/-- All parts are void. -/
def allVoid : List Part → Bool
  | [] => true
  | part :: rest => part.isVoid && allVoid rest

/-- All branches are void. -/
def allBranchesVoid : List (List Part) → Bool
  | [] => true
  | branch :: rest => allVoid branch && allBranchesVoid rest

end

mutual

/-- What a part may leave of the bytes it is given. -/
def Part.leave (part : Part) (given : List UInt8) : List (List UInt8) :=
  match part with
  | .literal c => behind (bytes [c]) given
  | .any => (given.tail?).toList
  | .star => endings given
  | .leadingComponents => given :: (behind [47] given ++ endingsBehindSlash given)
  | .trailingComponents => (behind [47] given).flatMap endings
  | .innerComponents =>
      (behind [47] given).flatMap fun rest => rest :: endingsBehindSlash rest
  | .oneOf negated ranges =>
      match given with
      | [] => []
      | b :: rest => if ranges.any (rangeHolds · b) != negated then [rest] else []
  | .alternatives branches =>
      if allBranchesVoid branches then [given] else leaveBranches branches given

/-- What parts in order may leave of one of several lists of bytes. -/
def leaveAll (parts : List Part) (given : List (List UInt8)) : List (List UInt8) :=
  match parts with
  | [] => given
  | part :: rest => leaveAll rest (distinct (given.flatMap fun given => part.leave given))

/-- What one of several branches may leave. Void branches do not count. -/
def leaveBranches (branches : List (List Part)) (given : List UInt8) : List (List UInt8) :=
  match branches with
  | [] => []
  | branch :: rest =>
      (if allVoid branch then [] else leaveAll branch [given]) ++ leaveBranches rest given

end

end Glob

/-- The pattern matches the whole path. The pattern `**` matches every path. -/
def Glob.isMatch (glob : Glob) (path : Text) : Bool :=
  match glob.parts with
  | [.leadingComponents] => true
  | parts => (Glob.leaveAll parts [Glob.bytes path]).any List.isEmpty

end Directives
