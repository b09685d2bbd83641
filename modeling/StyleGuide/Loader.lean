import StyleGuide.Examples.Document
import StyleGuide.FileSystem.Basic
import StyleGuide.Props.Interface
import StyleGuide.Reference

/-!
# Loaders

A loader gives the value that a reference stands for. A registry has at most one loader for each
kind of resource.

## Main definitions

* `Loader`, with `Loader.examples`, `Loader.module` and `Loader.props`.
* `PropsExtractor`: a reader of the properties that a source declares.
* `Registry` and `Registry.load`.
-/

namespace StyleGuide

/-- A reader of the properties that a component's source declares. -/
structure PropsExtractor where
  /-- The extensions of the files that it reads. -/
  extensions : List String
  extract : String → Except ExtractError PropsDoc

namespace PropsExtractor

/-- The reader of interface declarations. -/
def interface : PropsExtractor := ⟨["tsx", "ts"], Interface.extract⟩

/-- Whether a file has one of the extensions that the reader knows. -/
def handles (x : PropsExtractor) (file : Path) : Bool :=
  match file.extension? with
  | none => false
  | some name => x.extensions.any fun known => Utf8.encode known == name

end PropsExtractor

/-- Why a loader fails. -/
inductive LoadError where
  | read (path : Path) (cause : FileError)
  | extract (path : Path) (cause : ExtractError)

/-- What is said about a loader that fails. -/
def LoadError.message : LoadError → String
  | read path _ => "Failed to read " ++ path.text
  | extract path _ => "Failed to extract props from " ++ path.text

/-- A rule that gives the value of a reference, given the files. -/
abbrev Loader := FileSystem → Reference → Except LoadError Json

namespace Loader

/-- The text that a reference points at. -/
def source (fs : FileSystem) (r : Reference) : Except LoadError String :=
  (fs.readText r.path).mapError (.read r.path)

/-- The parts of a document of examples. -/
def examples : Loader := fun fs r => do
  let text ← source fs r
  let params := ⟨r.param? "imagePath", r.param? "componentName"⟩
  pure (.array ((Examples.chunks text params).map (·.toJson)))

/-- The source of a component. -/
def module : Loader := fun fs r => do
  let text ← source fs r
  pure (.object [("path", .string r.path.text), ("source", .string text)])

/-- The properties of a component. Files that the reader does not know have none, and are not
looked at. -/
def props (x : PropsExtractor) : Loader := fun fs r => do
  if x.handles r.path then
    let text ← source fs r
    let doc ← (x.extract text).mapError (.extract r.path)
    pure doc.toJson.merged
  else pure (PropsDoc.toJson ⟨"", []⟩)

end Loader

/-- Why a reference has no value. -/
inductive ResolveError where
  | noLoader (kind : ResourceKind)
  | handle (cause : HandleError)
  /-- The loader for the request fails. -/
  | load (request : String) (cause : LoadError)

/-- What is said about a reference that has no value. -/
def ResolveError.message : ResolveError → String
  | noLoader kind => "No loader registered for '" ++ kind.name ++ "' resources"
  | handle _ => "Malformed resource handle"
  | load request _ => "Failed to load " ++ request

/-- The loader of each kind that has one. -/
structure Registry where
  loader? : ResourceKind → Option Loader

namespace Registry

/-- No kind has a loader. -/
def empty : Registry := ⟨fun _ => none⟩

/-- Give a kind a loader, in place of the one it had. -/
def register (kind : ResourceKind) (loader : Loader) (g : Registry) : Registry :=
  ⟨fun k => if k = kind then some loader else g.loader? k⟩

/-- Whether a kind has a loader. -/
def contains (kind : ResourceKind) (g : Registry) : Bool := (g.loader? kind).isSome

/-- The loaders for a reader of properties. -/
def standard (x : PropsExtractor) : Registry :=
  ((empty.register .examples .examples).register .module .module).register .props (.props x)

/-- The value of a reference. -/
def load (g : Registry) (fs : FileSystem) (r : Reference) : Except ResolveError Json :=
  match g.loader? r.kind with
  | none => .error (.noLoader r.kind)
  | some loader => (loader fs r).mapError (.load r.request)

@[simp] theorem loader?_register_self (kind : ResourceKind) (loader : Loader) (g : Registry) :
    (g.register kind loader).loader? kind = some loader := by
  simp [register]

end Registry

end StyleGuide
