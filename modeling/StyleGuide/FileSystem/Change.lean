import StyleGuide.FileSystem.Basic

/-!
# Changes to a file system

Each operation gives the changed file system, or the reason why nothing was changed;
`makeDirectories` may change something and fail all the same.
-/

namespace StyleGuide.FileSystem

/-- Put an entry at a place. -/
def put (fs : FileSystem) (place : Place) (e : Entry) : FileSystem :=
  { fs with entries := (place, e) :: fs.entries.filter (·.1 ≠ place) }

/-- Take away what stands at a place, with all it holds. -/
def erase (fs : FileSystem) (place : Place) : FileSystem :=
  { fs with
    entries := fs.entries.filter fun e => !place.isPrefixOf e.1
    unreadable := fs.unreadable.filter fun p => !place.isPrefixOf p }

/-- A path without the separators at its end. -/
def withoutFinalSlashes (p : Path) : Path :=
  let kept := (p.bytes.reverse.dropWhile (· == Path.slash)).reverse
  if kept = [] then p else ⟨kept⟩

/-- Make one directory. -/
def makeDirectory (fs : FileSystem) (p : Path) : Except FileError FileSystem :=
  match fs.target false (withoutFinalSlashes p) with
  | .ok (.found _) => .error .alreadyExists
  | .ok (.vacant place) => .ok (fs.put place .directory)
  | .error e => .error e

/-- Make a directory and those above it that are missing. The fuel counts the parents that are
left. -/
def makeDirectoriesWithin : Nat → FileSystem → Path → FileSystem × Except FileError Unit
  | 0, fs, _ => (fs, .error .notFound)
  | fuel + 1, fs, p =>
    if p.components = [] then (fs, .ok ())
    else
      match fs.makeDirectory p with
      | .ok changed => (changed, .ok ())
      | .error .notFound =>
        match p.parent? with
        | none => (fs, .error .notFound)
        | some above =>
          match makeDirectoriesWithin fuel fs above with
          | (changed, .error e) => (changed, .error e)
          | (changed, .ok ()) =>
            match changed.makeDirectory p with
            | .ok done => (done, .ok ())
            | .error e => (changed, if changed.isDirectory p then .ok () else .error e)
      | .error e => (fs, if fs.isDirectory p then .ok () else .error e)

/-- Make a directory and those above it that are missing. Where one cannot be made, those above it
stay. -/
def makeDirectories (fs : FileSystem) (p : Path) : FileSystem × Except FileError Unit :=
  makeDirectoriesWithin (p.bytes.length + 1) fs p

/-- Write a file, over what it held before. A link at the end of the path is followed. -/
def write (fs : FileSystem) (p : Path) (content : Bytes) : Except FileError FileSystem :=
  match fs.target true (withoutFinalSlashes p) with
  | .error e => .error e
  | .ok t =>
    if p.bytes.getLast? = some Path.slash then .error .isADirectory
    else
      match t with
      | .vacant place => .ok (fs.put place (.file content))
      | .found place =>
        match fs.entry? place with
        | some (.file _) => .ok (fs.put place (.file content))
        | _ => .error .isADirectory

/-- Make a link. -/
def makeLink (fs : FileSystem) (p target : Path) : Except FileError FileSystem :=
  match fs.target false p with
  | .ok (.found _) => .error .alreadyExists
  | .ok (.vacant place) => .ok (fs.put place (.link target))
  | .error e => .error e

/-- Take away what a path leads to, with all it holds; a link at its end is taken away itself. -/
def remove (fs : FileSystem) (p : Path) : Except FileError FileSystem :=
  match fs.target false p with
  | .ok (.found place) => .ok (fs.erase place)
  | .ok (.vacant _) => .error .notFound
  | .error e => .error e

end StyleGuide.FileSystem
