import StyleGuide.Glob.Basic
import StyleGuide.Path.Basic

/-!
# Matching globs

A glob is matched against the bytes of a relative path. `Token.rests` lists what can be left of a
byte sequence behind a token, so a glob matches when the empty sequence can be left behind all of
its tokens. `?` and a class take one byte, also of a character that has several.

A branch of a choice that cannot match anything but by being skipped is left out, and a choice
without branches is skipped.
-/

namespace StyleGuide.Glob

/-- Everything behind one of the separators. -/
def behindSlash : Bytes → List Bytes
  | [] => []
  | b :: rest => if b = Path.slash then rest :: behindSlash rest else behindSlash rest

/-- What is left behind no directories, or any. -/
def afterDirs (s : Bytes) : List Bytes := s :: behindSlash s

/-- All ends of a sequence, the whole one first. -/
def suffixes : Bytes → List Bytes
  | [] => [[]]
  | b :: rest => (b :: rest) :: suffixes rest

/-- What a run within a component can leave. -/
def afterRun : Bytes → List Bytes
  | [] => [[]]
  | b :: rest => (b :: rest) :: (if b = Path.slash then [] else afterRun rest)

/-- Whether a byte belongs to a range of a class. Characters beyond ASCII count as their bytes, and
a range of them reaches from the last byte of the first to the first byte of the last. -/
def inRange (b : UInt8) (r : Char × Char) : Bool :=
  let first := String.utf8EncodeChar r.1
  let last := String.utf8EncodeChar r.2
  if r.1 = r.2 then first.contains b
  else
    first.dropLast.contains b || last.tail.contains b ||
      (first.getLast?.any (· ≤ b) && last.head?.any (b ≤ ·))

mutual

/-- Whether a token is a choice with nothing in it. -/
def Token.isVoid : Token → Bool
  | .choice branches => allVoid branches
  | _ => false

/-- Whether a sequence consists of empty choices. -/
def isVoid : List Token → Bool
  | [] => true
  | t :: ts => t.isVoid && isVoid ts

/-- Whether all branches are void. -/
def allVoid : List (List Token) → Bool
  | [] => true
  | b :: bs => isVoid b && allVoid bs

end

mutual

/-- What can be left of a byte sequence behind a token. -/
def Token.rests : Token → Bytes → List Bytes
  | .literal c, s =>
    let bytes := String.utf8EncodeChar c
    if bytes.isPrefixOf s then [s.drop bytes.length] else []
  | .any, s =>
    match s with
    | [] => []
    | b :: rest => if b = Path.slash then [] else [rest]
  | .star, s => afterRun s
  | .leadingDirs, s => afterDirs s
  | .everythingBelow, s =>
    match s with
    | [] => []
    | b :: rest => if b = Path.slash then suffixes rest else []
  | .innerDirs, s =>
    match s with
    | [] => []
    | b :: rest => if b = Path.slash then afterDirs rest else []
  | .oneOf negated ranges, s =>
    match s with
    | [] => []
    | b :: rest => if ranges.any (inRange b) != negated then [rest] else []
  | .choice branches, s => if allVoid branches then [s] else branchRests branches s

/-- What can be left behind a sequence of tokens, from any of the given byte sequences. -/
def rests : List Token → List Bytes → List Bytes
  | [], starts => starts
  | t :: ts, starts => rests ts (starts.flatMap t.rests).eraseDups

/-- What can be left behind one of the branches that are not void. -/
def branchRests : List (List Token) → Bytes → List Bytes
  | [], _ => []
  | b :: bs, s => (if isVoid b then [] else rests b [s]) ++ branchRests bs s

end

/-- Whether a glob matches a relative path as a whole. The glob `**` matches everything. -/
def isMatch (g : Glob) (path : Bytes) : Bool :=
  match g with
  | [.leadingDirs] => true
  | _ => (rests g [path]).contains []

end StyleGuide.Glob
