import StyleGuide.Component.Entry

/-!
# Compiled style guides

A configuration is compiled into a tree of sections and components. The tree refers to the
documents it shows and does not hold them.

## Main definitions

* `Section` and `Section.build`: a section with its components and the sections below it.
* `Tree` and `compile`: the whole style guide.
* `Tree.componentCount`: how many components a tree holds at all levels.
* `Tree.toJsonWith`, `Tree.toJson`: a tree as a value, and the value that it is handed on as.
-/

namespace StyleGuide

/-- A section of a compiled style guide. -/
structure Section where
  name : String
  content : Option Reference
  /-- `none` where no components are configured, which is not the same as finding none. -/
  components : Option (List ComponentEntry)
  sections : Option (List Section)
deriving Inhabited

/-- How a style guide is to be shown. -/
structure Presentation where
  title : String
  highlightTheme : String
  showCode : Bool
deriving DecidableEq

/-- A compiled style guide. -/
structure Tree where
  presentation : Presentation
  components : Option (List ComponentEntry)
  sections : Option (List Section)

/-- How many entries there are. -/
def entryCount (components : Option (List ComponentEntry)) : Nat := (components.getD []).length

mutual

/-- How many components a section holds at all levels. -/
def Section.componentCount : Section → Nat
  | ⟨_, _, components, none⟩ => entryCount components
  | ⟨_, _, components, some sections⟩ => entryCount components + countComponents sections

/-- How many components a list of sections holds at all levels. -/
def countComponents : List Section → Nat
  | [] => 0
  | s :: rest => s.componentCount + countComponents rest

end

/-- How many components a tree holds at all levels. -/
def Tree.componentCount (t : Tree) : Nat :=
  entryCount t.components + countComponents (t.sections.getD [])

mutual

/-- The section that a definition stands for. Its own components come before the sections below
it, and a section never has the components of those. -/
def Section.build (fs : FileSystem) (c : Config) : SectionDef → Except CompileError Section
  | ⟨name, content, spec, subsections⟩ => do
    let components ← buildComponents fs c spec
    let sections ← match subsections with
      | none => pure none
      | some defs => some <$> buildSections fs c defs
    pure
      ⟨name, content.map fun p => .bare .examples (c.resolvePath fs p), components, sections⟩

/-- The sections that definitions stand for, in order. -/
def buildSections (fs : FileSystem) (c : Config) :
    List SectionDef → Except CompileError (List Section)
  | [] => .ok []
  | d :: rest => do
    let s ← Section.build fs c d
    let others ← buildSections fs c rest
    pure (s :: others)

end

/-- The sections of an optional list of definitions. -/
def buildSections? (fs : FileSystem) (c : Config) (defs : Option (List SectionDef)) :
    Except CompileError (Option (List Section)) :=
  match defs with
  | none => .ok none
  | some defs => (buildSections fs c defs).map some

/-- The style guide that a configuration stands for. -/
def compile (fs : FileSystem) (c : Config) : Except CompileError Tree := do
  checkBaseDirectory fs (c.baseDirectory fs)
  let components ← buildComponents fs c c.components
  let sections ← buildSections? fs c c.sections
  pure ⟨⟨c.title, c.highlightTheme, c.showCode⟩, components, sections⟩

/-! ## Trees as values

What a value holds in the place of a reference is a parameter. It is handed on with handles. -/

/-- The value of an optional part; `null` stands for its absence. -/
def Json.ofOption {α : Type} (f : α → Json) (v : Option α) : Json := v.elim .null f

/-- Where the properties come from. Without properties there is an object without fields. -/
def PropsSource.toJsonWith (write : Reference → Json) : PropsSource → Json
  | .extracted r => write r
  | .none => .object []

/-- The fields of an entry. -/
def ComponentEntry.toJsonWith (write : Reference → Json) (e : ComponentEntry) : Json :=
  .object
    [("filepath", .string e.filepath.text),
     ("nameFallback", .string e.displayName),
     ("relativePath", .string e.relativePath.text),
     ("pathLine", .string e.pathLine),
     ("imagePath", .string e.imagePath),
     ("hasSlice", .bool e.hasSlice),
     ("designMarkdown", .ofOption write e.design),
     ("examples", .ofOption write e.examples),
     ("module", .ofOption write e.module),
     ("props", e.props.toJsonWith write)]

/-- The entries in order. -/
def entriesJsonWith (write : Reference → Json) (entries : List ComponentEntry) : Json :=
  .array (entries.map (·.toJsonWith write))

mutual

/-- The fields of a section. -/
def Section.toJsonWith (write : Reference → Json) : Section → Json
  | ⟨name, content, components, sections⟩ =>
    .object
      [("name", .string name),
       ("content", .ofOption write content),
       ("components", .ofOption (entriesJsonWith write) components),
       ("sections", match sections with
          | none => .null
          | some sections => .array (sectionsJsonWith write sections))]

/-- The sections in order. -/
def sectionsJsonWith (write : Reference → Json) : List Section → List Json
  | [] => []
  | s :: rest => s.toJsonWith write :: sectionsJsonWith write rest

end

/-- The fields of the presentation. -/
def Presentation.toJson (p : Presentation) : Json :=
  .object
    [("title", .string p.title), ("highlightTheme", .string p.highlightTheme),
     ("showCode", .bool p.showCode)]

/-- A tree as a value, its references written in a given way. -/
def Tree.toJsonWith (write : Reference → Json) (t : Tree) : Json :=
  .object
    [("config", t.presentation.toJson),
     ("components", .ofOption (entriesJsonWith write) t.components),
     ("sections", .ofOption (fun s => .array (sectionsJsonWith write s)) t.sections)]

/-- The value that an entry is handed on as. -/
def ComponentEntry.toJson (e : ComponentEntry) : Json := e.toJsonWith Reference.handle

/-- The value that entries are handed on as. -/
def entriesJson (entries : List ComponentEntry) : Json := entriesJsonWith Reference.handle entries

/-- The value that a section is handed on as. -/
def Section.toJson (s : Section) : Json := s.toJsonWith Reference.handle

/-- The values that sections are handed on as. -/
def sectionsJson (sections : List Section) : List Json := sectionsJsonWith Reference.handle sections

/-- The value that a tree is handed on as. -/
def Tree.toJson (t : Tree) : Json := t.toJsonWith Reference.handle

end StyleGuide
