import StyleGuide.Text.Cut
import StyleGuide.Text.Utf8

/-!
# Paths

A path is a byte sequence, read as components separated by `/`. Repeated separators, a final
separator and every `.` but a leading one are no components, so two texts can name the same
components; the text itself is kept.

## Main definitions

* `Path.components`: the parts of a path, in order.
* `Path.ofComponents`: the plainest text with given parts.
* `Path.join`: a path read from another one.
* `Path.parent?`, `Path.fileName?`, `Path.stem?`, `Path.extension?`: the ends of a path.
-/

namespace StyleGuide

/-- A path, as the bytes it is written with. -/
structure Path where
  bytes : Bytes
deriving DecidableEq, Inhabited

namespace Path

/-- The separator of components. -/
def slash : UInt8 := 0x2F

/-- The byte of `.`. -/
def dot : UInt8 := 0x2E

/-- The path written as a text. -/
def ofString (s : String) : Path := ⟨Utf8.encode s⟩

/-- The text of a path, malformed bytes replaced. -/
def text (p : Path) : String := Utf8.decodeLossy p.bytes

/-- One part of a path. -/
inductive Component where
  /-- The leading `/`. -/
  | root
  /-- A leading `.`. -/
  | current
  /-- `..` -/
  | parent
  /-- The name of a file or directory. -/
  | name (n : Bytes)
deriving DecidableEq

namespace Component

/-- How a component is written. -/
def bytes : Component → Bytes
  | root => [slash]
  | current => [dot]
  | parent => [dot, dot]
  | name n => n

/-- The component that a piece between separators stands for. -/
def ofSegment? (s : Bytes) : Option Component :=
  if s = [] ∨ s = [dot] then none
  else if s = [dot, dot] then some parent
  else some (name s)

end Component

/-- Whether the path starts at the root. -/
def isAbsolute (p : Path) : Bool := p.bytes.head? == some slash

/-- The pieces of the path between separators. -/
def segments (p : Path) : List Bytes := cut (· == slash) p.bytes

/-- The components of a path. -/
def components (p : Path) : List Component :=
  let lead : List Component :=
    if p.isAbsolute then [.root]
    else if p.segments.head? = some [dot] then [.current]
    else []
  lead ++ p.segments.filterMap Component.ofSegment?

/-- Whether two paths have the same components. -/
def SameAs (p q : Path) : Prop := p.components = q.components

instance (p q : Path) : Decidable (SameAs p q) :=
  inferInstanceAs (Decidable (p.components = q.components))

/-- The path `q` as seen from `p`: an absolute `q` stands for itself. -/
def join (p q : Path) : Path :=
  if q.isAbsolute then q
  else if p.bytes = [] ∨ p.bytes.getLast? = some slash then ⟨p.bytes ++ q.bytes⟩
  else ⟨p.bytes ++ slash :: q.bytes⟩

/-- The path with the given components. -/
def ofComponents (cs : List Component) : Path :=
  cs.foldl (fun p c => p.join ⟨c.bytes⟩) ⟨[]⟩

/-- Leave out the last pieces, given from the end, that are no components. The first piece of a
relative path is one even when it is `.`. -/
def dropTrailing (absolute : Bool) : List Bytes → List Bytes
  | [] => []
  | [s] => if s = [] ∨ (absolute = true ∧ s = [dot]) then [] else [s]
  | s :: next :: rest =>
    if s = [] ∨ s = [dot] then dropTrailing absolute (next :: rest) else s :: next :: rest

/-- The path without its last component; the text before it is kept as written. -/
def parent? (p : Path) : Option Path :=
  let absolute := p.isAbsolute
  let body := if absolute then p.bytes.drop 1 else p.bytes
  match dropTrailing absolute (cut (· == slash) body).reverse with
  | [] => none
  | _ :: above =>
    let kept := joinWith slash (dropTrailing absolute above).reverse
    some ⟨if absolute then slash :: kept else kept⟩

/-- The last component, if it is a name. -/
def fileName? (p : Path) : Option Bytes :=
  match p.components.getLast? with
  | some (.name n) => some n
  | _ => none

/-- A name cut at its last dot. A name without a dot, or with only a leading one, is all stem. -/
def splitName (n : Bytes) : Bytes × Option Bytes :=
  match n.reverse.dropWhile (· != dot) with
  | [] => (n, none)
  | [_] => (n, none)
  | _ :: before => (before.reverse, some (n.reverse.takeWhile (· != dot)).reverse)

/-- The file name without its extension. -/
def stem? (p : Path) : Option Bytes := p.fileName?.map fun n => (splitName n).1

/-- The part of the file name after its last dot. -/
def extension? (p : Path) : Option Bytes := p.fileName?.bind fun n => (splitName n).2

end Path

end StyleGuide
