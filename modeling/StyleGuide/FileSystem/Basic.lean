import StyleGuide.Path.Basic

/-!
# File systems

A file system as a value: what stands at which place. A place is the list of names that leads to it
from the root, with no link on the way. Paths are turned into places by `resolve`, which follows
links as it meets them and takes `..` to the directory above the place reached so far.

Files and directories may be closed to the program. Then the content of such a file and the names in
such a directory cannot be read; what stands in the directory is still reached by its path.

## Main definitions

* `FileSystem`, `FileSystem.Entry`, `FileSystem.Place`.
* `FileSystem.entry?`, `FileSystem.names`: what stands at a place, and which names a directory
  holds.
* `FileSystem.list`: the names in a directory, where they can be read.
* `FileSystem.follow`: the way from a place by the pieces of a path.
* `FileSystem.resolve`: the place a path leads to, or the reason why it leads nowhere.
* `FileSystem.isFile`, `FileSystem.isDirectory`, `FileSystem.pathExists`, `FileSystem.readText`.
-/

namespace StyleGuide

/-- Why a path cannot be used. -/
inductive FileError where
  | notFound
  | notADirectory
  | isADirectory
  | alreadyExists
  /-- The file or directory may not be read. -/
  | permissionDenied
  /-- The content is not UTF-8. -/
  | invalidData
  /-- The path holds a NUL byte. -/
  | invalidInput
  /-- A name is longer than 255 bytes. -/
  | invalidFilename
  /-- More than forty links are met. -/
  | filesystemLoop
deriving DecidableEq

namespace FileSystem

/-- The names that lead from the root to a place. -/
abbrev Place := List Bytes

/-- What stands at a place. -/
inductive Entry where
  | file (content : Bytes)
  | directory
  | link (target : Path)
deriving DecidableEq

end FileSystem

/-- A file system. The root is always a directory. -/
structure FileSystem where
  /-- What stands at each place but the root. -/
  entries : List (FileSystem.Place × FileSystem.Entry)
  /-- The directory that relative paths start from. -/
  current : FileSystem.Place
  /-- The places of the files and directories that may not be read. -/
  unreadable : List FileSystem.Place := []
deriving Inhabited

namespace FileSystem

/-- What stands at a place. -/
def entry? (fs : FileSystem) (place : Place) : Option Entry :=
  if place = [] then some .directory else fs.entries.lookup place

/-- The last name of an entry of the directory at `place`. -/
def nameIn? (place entryPlace : Place) : Option Bytes :=
  if entryPlace.dropLast = place then entryPlace.getLast? else none

/-- Put a name in its place among names in byte order, unless it is there already. -/
def insertName (n : Bytes) : List Bytes → List Bytes
  | [] => [n]
  | m :: ms =>
    if n = m then m :: ms
    else if n < m then n :: m :: ms
    else m :: insertName n ms

/-- The names that the directory at a place holds, in byte order. -/
def names (fs : FileSystem) (place : Place) : List Bytes :=
  (fs.entries.filterMap fun e => nameIn? place e.1).foldr insertName []

instance (fs : FileSystem) (place : Place) : Decidable (place ∈ fs.unreadable) :=
  List.instDecidableMemOfLawfulBEq place fs.unreadable

/-- The names that the directory at a place shows when it is read. -/
def list (fs : FileSystem) (place : Place) : Except FileError (List Bytes) :=
  if place ∈ fs.unreadable then .error .permissionDenied else .ok (fs.names place)

/-- Where a path leads. -/
inductive Target where
  /-- Something stands at the place. -/
  | found (place : Place)
  /-- Nothing stands there, but its directory exists. -/
  | vacant (place : Place)
deriving DecidableEq

/-- How many links are followed on the way along one path. -/
def linkLimit : Nat := 40

/-- The longest name, in bytes. -/
def nameLimit : Nat := 255

/-- Follow the pieces of a path from a place. A link that is the last piece is followed only when
`followLast` says so; where a link is followed, `jump` goes on from its directory with the pieces of
the link and those behind it. -/
def followPieces (fs : FileSystem) (followLast : Bool)
    (jump : Place → List Bytes → Except FileError Target) :
    Place → List Bytes → Except FileError Target
  | place, [] => .ok (.found place)
  | place, piece :: rest =>
    if fs.entry? place ≠ some .directory then .error .notADirectory
    else if piece = [] ∨ piece = [Path.dot] then followPieces fs followLast jump place rest
    else if piece = [Path.dot, Path.dot] then followPieces fs followLast jump place.dropLast rest
    else if nameLimit < piece.length then .error .invalidFilename
    else
      match fs.entry? (place ++ [piece]) with
      | none => if rest = [] then .ok (.vacant (place ++ [piece])) else .error .notFound
      | some (.link target) =>
        if rest = [] ∧ followLast = false then .ok (.found (place ++ [piece]))
        else jump (if target.isAbsolute then [] else place) (target.segments ++ rest)
      | some _ => followPieces fs followLast jump (place ++ [piece]) rest

/-- Follow the pieces of a path from a place, through at most so many links. -/
def follow (fs : FileSystem) (followLast : Bool) :
    (links : Nat) → Place → List Bytes → Except FileError Target
  | 0 => fs.followPieces followLast fun _ _ => .error .filesystemLoop
  | links + 1 => fs.followPieces followLast (follow fs followLast links)

/-- Where a path leads from the current directory. -/
def target (fs : FileSystem) (followLast : Bool) (p : Path) : Except FileError Target :=
  if p.bytes = [] then .error .notFound
  else if p.bytes.contains 0 then .error .invalidInput
  else fs.follow followLast linkLimit (if p.isAbsolute then [] else fs.current) p.segments

/-- The place a path leads to, all links followed. -/
def resolve (fs : FileSystem) (p : Path) : Except FileError Place :=
  match fs.target true p with
  | .ok (.found place) => .ok place
  | .ok (.vacant _) => .error .notFound
  | .error e => .error e

/-- What a path leads to, all links followed. -/
def look (fs : FileSystem) (p : Path) : Except FileError Entry :=
  match fs.resolve p with
  | .ok place => (fs.entry? place).elim (.error .notFound) .ok
  | .error e => .error e

/-- Whether the path leads to anything. -/
def pathExists (fs : FileSystem) (p : Path) : Bool := (fs.look p).isOk

/-- Whether the path leads to a regular file. -/
def isFile (fs : FileSystem) (p : Path) : Bool :=
  match fs.look p with
  | .ok (.file _) => true
  | _ => false

/-- Whether the path leads to a directory. -/
def isDirectory (fs : FileSystem) (p : Path) : Bool :=
  match fs.look p with
  | .ok .directory => true
  | _ => false

/-- The content of the file that a path leads to. -/
def read (fs : FileSystem) (p : Path) : Except FileError Bytes :=
  match fs.resolve p with
  | .error e => .error e
  | .ok place =>
    if place ∈ fs.unreadable then .error .permissionDenied
    else
      match fs.entry? place with
      | some (.file content) => .ok content
      | some _ => .error .isADirectory
      | none => .error .notFound

/-- The text of the file that a path leads to. -/
def readText (fs : FileSystem) (p : Path) : Except FileError String :=
  match fs.read p with
  | .ok content => (Utf8.decode? content).elim (.error .invalidData) .ok
  | .error e => .error e

/-- The current directory as a path. -/
def currentPath (fs : FileSystem) : Path :=
  .ofComponents (.root :: fs.current.map .name)

end FileSystem

end StyleGuide
