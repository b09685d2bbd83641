import StyleGuide.Proofs.Compilation.Entries
import StyleGuide.Proofs.Config.BaseDirectory
import StyleGuide.Proofs.Path.Rooted

/-!
# Entries are well-formed

An entry is made of a file alone: its name, the way to it, the kind of file it is and the documents
beside it are read off the same path by different rules. In a compiled style guide they fit
together, because the file is the root with names below it.

## Main definitions

* `Reference.IsDocumentOf`: a document where it is there, or else the shared one.
* `ComponentEntry.WellFormed`: how the parts of an entry fit together.

## Main results

* `Path.displayName_of_parentName?`: where there may be a reference image, the component has the
  name of its directory.
* `wellFormed_of_mem_entries`: all entries of a compiled style guide are well-formed.
-/

namespace StyleGuide

/-! ## Names of components -/

namespace Path

variable {p : Path} {n : String}

/-- Where a path has no name at all, there is one that every component can have. -/
lemma ite_getD_ne_empty (name : String) (other : Option String) :
    (if name ≠ "" then name else (other.filter (· ≠ "")).getD "Component") ≠ "" := by
  split
  · assumption
  · cases h : other.filter (· ≠ "") with
    | none => decide
    | some n => simpa using (Option.filter_eq_some_iff.1 h).2

/-- No component is without a name. -/
lemma displayName_ne_empty (p : Path) : p.displayName ≠ "" := ite_getD_ne_empty _ _

/-- A component has the name of its directory when it is named after it, and also when it has the
same name by itself. -/
lemma displayName_of_parentName? (hslice : p.isDirectoryRooted = true ∨ p.stemText = n)
    (hname : p.parentName? = some n) (hn : n ≠ "") : p.displayName = n := by
  unfold displayName
  rw [hname]
  rcases hslice with hrooted | hstem
  · simp [hrooted, Option.filter, hn]
  · cases hrooted : p.isDirectoryRooted <;> simp [hstem, Option.filter, hn]

lemma isDesignDocument_iff :
    p.isDesignDocument = true ↔ p.fileName? = some (Utf8.encode designFile) := by
  rw [isDesignDocument, beq_iff_eq, Option.bind_eq_some_iff]
  simp [Utf8.decode?_eq_some_iff]

/-- A component with a reference image has the name of its directory. -/
lemma displayName_of_sliceExists {fs : FileSystem} {c : Config} {dir : Path}
    (h : sliceExists fs c p = true) (hdir : p.parent? = some dir)
    (hname : dir.fileName? = some (Utf8.encode n)) : p.displayName = n := by
  have hparent : p.parentName? = some n := by
    rw [parentName?, hdir, Option.bind_some, hname, Option.bind_some, Utf8.decode?_encode]
  have hn : n ≠ "" := by
    rintro rfl
    exact (isName_of_fileName? hname).ne_nil rfl
  rw [sliceExists, Bool.and_eq_true, Bool.or_eq_true, hparent, beq_iff_eq, Option.some.injEq] at h
  exact displayName_of_parentName? (h.1.imp id Eq.symm) hparent hn

end Path

/-! ## Documents -/

/-- The document, if it is there, with the place of the images as its only parameter, or else the
shared one, which is also told for which component it is. -/
inductive Reference.IsDocumentOf (fs : FileSystem) (c : Config) (document : Path) (name : String) :
    Reference → Prop
  | own (h : fs.pathExists document = true) :
      IsDocumentOf fs c document name ⟨.examples, document, [("imagePath", c.imagePath)]⟩
  | shared {path : Path} (missing : fs.pathExists document = false)
      (h : c.defaultExample = some path) :
      IsDocumentOf fs c document name
        ⟨.examples, path, [("imagePath", c.imagePath), ("componentName", name)]⟩

/-- How the parts of an entry fit together. -/
structure ComponentEntry.WellFormed (fs : FileSystem) (c : Config) (e : ComponentEntry) : Prop where
  isAbsolute : e.filepath.isAbsolute = true
  isNormal : .current ∉ e.filepath.components ∧ .parent ∉ e.filepath.components
  displayName_ne_empty : e.displayName ≠ ""
  /-- The file is found from the base directory. -/
  relativePath : (c.baseDirectory fs).absolutize e.relativePath = e.filepath
  /-- Design notes are their own design document and have nothing else. -/
  notes : e.filepath.fileName? = some (Utf8.encode Path.designFile) →
    e.examples = none ∧ e.module = none ∧ e.props = .none ∧
      (fs.pathExists e.filepath = true →
        e.design = some ⟨.examples, e.filepath, [("imagePath", c.imagePath)]⟩)
  /-- The source of any other component is the file itself. -/
  source : e.filepath.fileName? ≠ some (Utf8.encode Path.designFile) →
    e.module = some (.bare .module e.filepath) ∧ e.props = .extracted (.bare .props e.filepath)
  examples : ∀ r ∈ e.examples,
    r.IsDocumentOf fs c (c.locator e.filepath none) e.displayName
  design : ∀ r ∈ e.design,
    r.IsDocumentOf fs c (c.locator e.filepath (some Path.designFile)) e.displayName
  /-- Only a component with the name of its directory has a reference image. -/
  slice : e.hasSlice = true → ∀ dir name, e.filepath.parent? = some dir →
    dir.fileName? = some (Utf8.encode name) → e.displayName = name

variable {fs : FileSystem} {c : Config} {name : String}

lemma examplesReference_of_pathExists {document : Path} (h : fs.pathExists document = true)
    (shared : Option Path) (imagePath : String) :
    examplesReference fs document name shared imagePath =
      some ⟨.examples, document, [("imagePath", imagePath)]⟩ := by
  rw [examplesReference, if_pos h]
  rfl

lemma isDocumentOf_of_mem_examplesReference {document : Path} {r : Reference}
    (h : r ∈ examplesReference fs document name c.defaultExample c.imagePath) :
    r.IsDocumentOf fs c document name := by
  unfold examplesReference at h
  split_ifs at h with hmissing
  · obtain rfl := Option.some.inj h
    exact .own ‹_›
  · obtain ⟨path, hpath, rfl⟩ := Option.map_eq_some_iff.1 h
    exact .shared (Bool.eq_false_iff.2 hmissing) hpath

/-! ## The entry of a file -/

namespace ComponentEntry

/-- The design document of design notes is the file itself. -/
lemma sibling_designFile {names : List Bytes} (hnames : ∀ n ∈ names, Path.IsName n)
    (h : (Path.fromRoot names).fileName? = some (Utf8.encode Path.designFile))
    (examplesFile : String) :
    Locator.sibling examplesFile (Path.fromRoot names) (some Path.designFile) =
      Path.fromRoot names := by
  rcases List.eq_nil_or_concat' names with rfl | ⟨front, n, rfl⟩
  · cases h
  · rw [Path.fileName?_fromRoot_concat hnames, Option.some.injEq] at h
    rw [Locator.sibling, Path.parent?_fromRoot_concat hnames, Path.fromRoot_concat, h]
    rfl

/-- The entry of a file below the root is well-formed. -/
theorem wellFormed_build {examplesFile : String} (hlocator : c.locator = .sibling examplesFile)
    (hbase : (c.baseDirectory fs).isAbsolute = true) {names : List Bytes}
    (hnames : ∀ n ∈ names, Path.IsName n) : (build fs c (.fromRoot names)).WellFormed fs c where
  isAbsolute := Path.isAbsolute_fromRoot hnames
  isNormal := by
    rw [build, Path.components_fromRoot hnames]
    simp
  displayName_ne_empty := Path.displayName_ne_empty _
  relativePath := by
    rw [build, Path.absolutize_relativeTo (Path.isAbsolute_fromRoot hnames) hbase,
      Path.normalize_fromRoot hnames]
  notes := by
    intro hnotes
    have hdesign : (Path.fromRoot names).isDesignDocument = true :=
      Path.isDesignDocument_iff.2 hnotes
    refine ⟨if_pos hdesign, if_pos hdesign, if_pos hdesign, fun hexists => ?_⟩
    have hdocument : c.locator (.fromRoot names) (some Path.designFile) = .fromRoot names := by
      rw [hlocator, sibling_designFile hnames hnotes]
    simp only [build, hdocument]
    exact examplesReference_of_pathExists hexists _ _
  source := by
    intro hsource
    have hdesign : ¬ (Path.fromRoot names).isDesignDocument = true :=
      mt Path.isDesignDocument_iff.1 hsource
    exact ⟨if_neg hdesign, if_neg hdesign⟩
  examples := by
    intro r hr
    simp only [build] at hr
    split at hr
    · cases hr
    · exact isDocumentOf_of_mem_examplesReference hr
  design := fun _ hr => isDocumentOf_of_mem_examplesReference hr
  slice := fun hslice _ _ hdir hname => Path.displayName_of_sliceExists hslice hdir hname

end ComponentEntry

/-! ## The entries of a style guide -/

/-- A style guide can be compiled only with an absolute base directory. -/
lemma isAbsolute_baseDirectory (h : checkBaseDirectory fs (c.baseDirectory fs) = .ok ()) :
    (c.baseDirectory fs).isAbsolute = true := by
  have hne : c.baseDir.bytes ≠ [] := by
    intro hnil
    rw [Config.baseDirectory_nil hnil, Config.checkBaseDirectory_nil] at h
    cases h
  exact Config.isAbsolute_baseDirectory_of_ne_nil hne

/-- The files of a specification are the root with names below it. -/
lemma exists_eq_fromRoot_of_mem_filesOf {spec : ComponentSpec} {files : List Path}
    (hbase : (c.baseDirectory fs).isAbsolute = true) (h : filesOf fs c spec = .ok files) :
    ∀ f ∈ files, ∃ names, (∀ n ∈ names, Path.IsName n) ∧ f = .fromRoot names := by
  intro f hf
  obtain ⟨-, -, p, -, rfl⟩ := exists_mem_pathsOf h hf
  exact Path.exists_absolutize_eq_fromRoot hbase p

/-- All entries of a compiled style guide are well-formed, at whatever depth they stand, as long as
the assets of a component are looked for beside it. -/
theorem wellFormed_of_mem_entries {examplesFile : String}
    (hlocator : c.locator = .sibling examplesFile) {t : Tree} (h : compile fs c = .ok t) :
    ∀ e ∈ t.entries, e.WellFormed fs c := by
  intro e he
  have hbase := isAbsolute_baseDirectory (compile_eq_ok_iff.1 h).1
  obtain ⟨spec, -, files, hfiles, f, hf, rfl⟩ := exists_isEntryOf_of_mem_entries h he
  obtain ⟨names, hnames, rfl⟩ := exists_eq_fromRoot_of_mem_filesOf hbase hfiles f hf
  exact ComponentEntry.wellFormed_build hlocator hbase hnames

/-- A component with design notes and a reference image, in the directory from which the program
runs. -/
def designedCard : FileSystem where
  entries := [([Utf8.encode "Card"], .directory),
    ([Utf8.encode "Card", Utf8.encode "index.js"], .file []),
    ([Utf8.encode "Card", Utf8.encode "DESIGN_README.md"], .file []),
    ([Utf8.encode "Card", Utf8.encode "assets"], .directory),
    ([Utf8.encode "Card", Utf8.encode "assets", Utf8.encode "slice.png"], .file [])]
  current := []

/-- The notes, the component, and a component that is not there. -/
def designedSpec : ComponentSpec :=
  .listed [.ofString "Card/DESIGN_README.md", .ofString "./Card/index.js",
    .ofString "Card/../Button.js"]

/-- A section with these components. -/
def designedConfig : Config :=
  { Config.standard with
    defaultExample := some (.ofString "shared.md")
    sections := some [⟨"Cards", none, some designedSpec, none⟩] }

lemma filesOf_designedSpec : filesOf designedCard designedConfig designedSpec =
    .ok [.ofString "/Card/DESIGN_README.md", .ofString "/Card/index.js",
      .ofString "/Button.js"] := by
  decide +kernel

/-- The entries are those of the three files, as they are seen from the root. -/
theorem wellFormed_designedCard :
    ∃ t, compile designedCard designedConfig = .ok t ∧
      t.entries.map (·.filepath) = [.ofString "/Card/DESIGN_README.md", .ofString "/Card/index.js",
        .ofString "/Button.js"] ∧
      ∀ e ∈ t.entries, e.WellFormed designedCard designedConfig := by
  obtain ⟨t, ht, hentries⟩ := exists_compile_of_specs (c := designedConfig) rfl (by decide +kernel)
    filesOf_designedSpec
  refine ⟨t, ht, ?_, wellFormed_of_mem_entries rfl ht⟩
  rw [hentries]
  rfl

end StyleGuide
