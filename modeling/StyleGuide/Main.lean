import StyleGuide.CommandLine.Run
import StyleGuide.CommandLine.Sources

/-!
# The program

Takes a picture of the files that a run may look at, runs on the picture, and carries out what has
changed in it.
-/

namespace StyleGuide.Program

/-- A part of the real file system. -/
structure Picture where
  fs : FileSystem
  /-- The directories of which everything has been added. -/
  complete : List FileSystem.Place

/-- What a link is taken to lead to when it leads nowhere. -/
def nowhere : Path := .ofString "/nowhere/at all"

/-- The text of a place. -/
def placeText (place : FileSystem.Place) : String :=
  (Path.ofComponents (.root :: place.map .name)).text

/-- What a picture is once something that may not be read has been added to it. -/
def Picture.close (p : Picture) (place : FileSystem.Place) : Picture :=
  { p with fs.unreadable := place :: p.fs.unreadable }

mutual

/-- Add what stands at a place, and with `below` all that is below it. The result also says where
it leads. -/
partial def addEntry (below : Bool) (p : Picture) (place : FileSystem.Place) :
    IO (Picture × Option FileSystem.Place) := do
  let put := fun (e : FileSystem.Entry) => { p with fs := p.fs.put place e }
  try
    let above ← IO.FS.realPath (placeText place.dropLast)
    let file := above / Utf8.decodeLossy (place.getLastD [])
    match (← file.symlinkMetadata).type with
    | .dir =>
      if !below || p.complete.contains place then
        return (if (p.fs.entry? place).isSome then p else put .directory, some place)
      let held? ← try some <$> file.readDir catch _ => pure none
      let some held := held? | return ((put .directory).close place, some place)
      let mut p := { put .directory with complete := place :: p.complete }
      for e in held do
        p := (← addEntry true p (place ++ [Utf8.encode e.fileName])).1
      return (p, some place)
    | .symlink =>
      try
        let target := Path.ofString (← IO.FS.realPath file).toString
        addPath below (put (.link target)) target
      catch _ => return (put (.link nowhere), none)
    | _ =>
      let content? ← try some <$> IO.FS.readBinFile file catch _ => pure none
      let some content := content? | return ((put (.file [])).close place, some place)
      return (put (.file content.toList), some place)
  catch _ => return (p, none)

/-- Add what stands on the way along an absolute path and at its end, and with `below` all that is
below its end. -/
partial def addPath (below : Bool) (p : Picture) (path : Path) :
    IO (Picture × Option FileSystem.Place) := do
  let pieces := path.segments.filter fun s => s ≠ [] ∧ s ≠ [Path.dot]
  let mut result : Picture × Option FileSystem.Place := (p, some [])
  for (piece, i) in pieces.zipIdx do
    if let (p, some place) := result then
      result ← if piece = [Path.dot, Path.dot] then pure (p, some place.dropLast)
        else addEntry (below && i + 1 == pieces.length) p (place ++ [piece])
  return result

end

/-- Add all that a request may look at. What is added in a first round shows which assets to add in
a second one. -/
def addSources (p : Picture) (r : CommandLine.CompileRequest) : IO Picture := do
  let absolute := fun (p : Picture) (path : Path) => p.fs.currentPath.join path
  let mut p := (← addPath false p (absolute p r.config)).1
  if let .ok c := Config.load p.fs r.config then
    for _ in [1, 2] do
      for source in c.sources p.fs do
        p := (← addPath true p source).1
  if let some output := r.output then
    p := (← addPath false p (absolute p output)).1
  return p

/-- Carry out what has changed in a picture: directories first, outer ones before inner ones. -/
def carryOut (before after : FileSystem) : IO Unit := do
  let changed := after.entries.filter fun e => before.entry? e.1 ≠ some e.2
  for (place, e) in changed.mergeSort fun a b => a.1.length ≤ b.1.length do
    match e with
    | .directory => IO.FS.createDirAll (placeText place)
    | .file content => IO.FS.writeBinFile (placeText place) ⟨content.toArray⟩
    | .link _ => pure ()

end StyleGuide.Program

/-- Run the program. -/
def main (args : List String) : IO UInt32 := do
  let current := StyleGuide.Path.ofString (← IO.currentDir).toString
  let start : StyleGuide.FileSystem :=
    { entries := [], current := current.segments.filter (· ≠ []) }
  let (picture, _) ← StyleGuide.Program.addPath false ⟨start, []⟩ current
  let picture ← match StyleGuide.CommandLine.Request.ofArguments args with
    | .ok (.compile request) => StyleGuide.Program.addSources picture request
    | _ => pure picture
  let outcome := StyleGuide.CommandLine.run picture.fs args
  StyleGuide.Program.carryOut picture.fs outcome.files
  IO.print outcome.output
  if let some message := outcome.message then
    IO.eprintln ("Error: " ++ message)
  return outcome.exitCode.toUInt32
