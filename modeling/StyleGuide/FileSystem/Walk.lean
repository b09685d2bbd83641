import StyleGuide.FileSystem.Basic

/-!
# Walking a directory tree

`walk` lists the regular files below a directory. Links are followed. The names of each directory
are visited in byte order, and what a directory holds stands in its place. A directory that may not
be read ends the walk, unless its name is passed over. A link that leads nowhere, to a directory
that may not be read, or back to one that is being visited, ends the walk also when its name would
be passed over.

## Main definitions

* `FileSystem.walk`: the regular files below a path, each as the names that lead to it.
* `FileSystem.WalkError`: where a walk came to an end, and why.
-/

namespace StyleGuide.FileSystem

/-- Where a walk came to an end, and why. -/
inductive WalkError where
  /-- The entry cannot be looked at, or the directory cannot be read. -/
  | unreadable (path : Path) (cause : FileError)
  /-- The directory that a link leads to cannot be opened. Which link it is is not told. -/
  | unopened (cause : FileError)
  /-- The link leads back to a directory that is being visited. -/
  | loop (path ancestor : Path)
deriving DecidableEq

/-- A directory that is being visited: its path, as the walk reached it, and its place. -/
structure Visit where
  path : Path
  place : Place

/-- What a visited name leads to. -/
inductive Found where
  | file
  | directory (place : Place)

/-- What the entry at a place leads to, where `path` is the way by which the walk came to it. The
links on all of that way count towards the limit. -/
def lookInto (fs : FileSystem) (visits : List Visit) (path : Path) (place : Place) :
    Except WalkError Found :=
  match fs.entry? place with
  | some .directory => .ok (.directory place)
  | some (.link _) =>
    match fs.resolve path with
    | .error e => .error (.unreadable path e)
    | .ok real =>
      match fs.entry? real with
      | some .directory =>
        if real ∈ fs.unreadable then .error (.unopened .permissionDenied)
        else
          match visits.find? (·.place = real) with
          | some v => .error (.loop path v.path)
          | none => .ok (.directory real)
      | _ => .ok .file
  | _ => .ok .file

/-- The files below the innermost visited directory, as names from where the walk started. The fuel
counts the directories that can still be entered one inside the other. -/
def walkWithin (fs : FileSystem) (allowed : Bytes → Bool) :
    Nat → List Visit → Visit → List Bytes → Except WalkError (List (List Bytes))
  | 0, _, _, _ => .ok []
  | fuel + 1, outer, visit, trail => do
    let names ← (fs.list visit.place).mapError (.unreadable visit.path)
    let below ← names.mapM fun n => do
      let path := visit.path.join ⟨n⟩
      match ← fs.lookInto (visit :: outer) path (visit.place ++ [n]) with
      | .file => pure (if allowed n then [trail ++ [n]] else [])
      | .directory place =>
        if allowed n then
          walkWithin fs allowed fuel (visit :: outer) ⟨path, place⟩ (trail ++ [n])
        else pure []
    pure below.flatten

/-- No walk enters more directories one inside the other: from one link to the next it only goes
down, and no two links that it is behind lead to one directory. -/
def nestingLimit (fs : FileSystem) : Nat :=
  (fs.entries.length + 2) * ((fs.entries.map (·.1.length)).foldl max 0 + 2)

/-- The regular files below the directory at a path, as the names that lead to them. A name that is
not allowed is passed over with all below it. -/
def walk (fs : FileSystem) (allowed : Bytes → Bool) (root : Path) :
    Except WalkError (List (List Bytes)) :=
  match fs.target false root with
  | .error e => .error (.unreadable root e)
  | .ok (.vacant _) => .error (.unreadable root .notFound)
  | .ok (.found start) => do
    match ← fs.lookInto [] root start with
    | .file => pure []
    | .directory place => fs.walkWithin allowed fs.nestingLimit [] ⟨root, place⟩ []

end StyleGuide.FileSystem
