import StyleGuide.Proofs.Component.Alignment
import StyleGuide.Proofs.Component.Entry

/-!
# Where the references of a configuration file lead

Components are found below the base directory, their documents beside them, and the documents of
sections are seen from the base directory, which is absolute by then. The shared examples are seen
from the base directory too, but already when the file is read, and then it is as absolute as the
way to the file was written.

## Main definitions

* `Config.SharedIsAbsolute`: one of the three paths that lead to the shared examples is absolute.

## Main results

* `Config.isPattern_of_mem_specs`: a configuration file names components by patterns only.
* `isFile_of_mem_filesOf`: what a pattern stands for is a file, also without its links.
* `Config.isAbsolute_references_of_load`: all references of a configuration file are absolute, but
  for those to the shared examples where no path that leads to them is.
-/

namespace StyleGuide

open FileSystem

variable {fs : FileSystem}

/-! ## The directory of a file -/

lemma FileSystem.Leads.eq_of_stays {links : Nat} {place q : Place} {pieces : List Bytes}
    (hstay : ∀ s ∈ pieces, s = [] ∨ s = [Path.dot])
    (h : fs.Leads true links place pieces (.ok (.found q))) : q = place := by
  induction pieces with
  | nil =>
    cases h
    rfl
  | cons s pieces ih =>
    rw [List.forall_mem_cons] at hstay
    exact ih hstay.2 (by cases h <;> grind [IsLookedUp])

/-- A path without names leads to no file. -/
lemma FileSystem.exists_parent?_of_isFile {p : Path} (h : fs.isFile p = true) :
    ∃ q, p.parent? = some q := by
  obtain ⟨q, content, hq, hfile⟩ := isFile_iff.1 h
  obtain ⟨-, hleads⟩ := leads_of_resolve hq
  rw [← Option.isSome_iff_exists, ← Option.ne_none_iff_isSome]
  intro hnone
  have hplace := hleads.eq_of_stays (Path.eq_of_mem_segments_of_parent? hnone)
  obtain ⟨s, rest, hsegments⟩ :=
    List.exists_cons_of_ne_nil (cut_ne_nil (· == Path.slash) p.bytes)
  rw [Path.segments, hsegments] at hleads
  rw [hplace, hleads.entry?_eq] at hfile
  cases hfile

lemma FileSystem.isFile_of_readText {p : Path} {text : String} (h : fs.readText p = .ok text) :
    fs.isFile p = true := by
  unfold readText at h
  cases hread : fs.read p with
  | error e => simp [hread] at h
  | ok content =>
    obtain ⟨q, hq, -, hfile⟩ := read_eq_ok_iff.1 hread
    exact isFile_iff.2 ⟨q, content, hq, hfile⟩

/-! ## The files of a pattern -/

section Pattern

variable {pattern : String} {base : Path} {files : List Path}

/-- What a pattern stands for is a file, and the path to it is the root with names below it. -/
lemma isFile_of_mem_expandPattern (hfs : fs.WellFormed) (hbase : base.isAbsolute = true)
    (h : expandPattern fs pattern base = .ok files) :
    ∀ f ∈ files, fs.isFile f = true ∧ ∃ names, (∀ n ∈ names, Path.IsName n) ∧
      f = .fromRoot names := by
  intro f hf
  cases hblank : allBlank pattern.toList with
  | true =>
    simp only [expandPattern, hblank] at h
    cases h
    cases hf
  | false =>
    rcases hsplit : Pattern.split pattern.toList with ⟨directory, _ | text⟩
    · rw [expandPattern_eq_of_none hblank (isDirectory_of_expandPattern hblank h) hsplit] at h
      cases h
      obtain ⟨hfile, rfl⟩ : fs.isFile (base.absolutize ⟨Utf8.encodeChars directory⟩) = true ∧
          f = base.absolutize ⟨Utf8.encodeChars directory⟩ := by
        split_ifs at hf with hfile
        · exact ⟨hfile, List.mem_singleton.1 hf⟩
        · cases hf
      exact ⟨hfile, Path.exists_absolutize_eq_fromRoot hbase _⟩
    · obtain ⟨glob, -, hmem⟩ := exists_glob_of_expandPattern hfs hsplit h
      obtain ⟨names, hexpands, rfl⟩ := (hmem f).1 hf
      obtain ⟨upper, hupper, hroot⟩ :=
        Path.exists_absolutize_eq_fromRoot hbase ⟨Utf8.encodeChars directory⟩
      have hisFile := hexpands.isFile
      rw [hroot, ← Path.fromRoot_append] at hisFile ⊢
      refine ⟨hisFile, upper ++ names, fun n hn => ?_, rfl⟩
      rcases List.mem_append.1 hn with hn | hn
      · exact hupper n hn
      · exact Path.isName_of_isFileName (hexpands.isFileName n hn)

variable {c : Config} {spec : ComponentSpec}

/-- Being seen from the base directory does not change these files. -/
lemma isFile_of_mem_filesOf (hfs : fs.WellFormed) (hbase : (c.baseDirectory fs).isAbsolute = true)
    (h : filesOf fs c (.pattern pattern) = .ok files) :
    ∀ f ∈ files, fs.isFile f = true ∧ ∃ names, (∀ n ∈ names, Path.IsName n) ∧
      f = .fromRoot names := by
  intro f hf
  obtain ⟨paths, hpaths, p, hp, rfl⟩ := exists_mem_pathsOf h hf
  obtain ⟨hfile, names, hnames, rfl⟩ := isFile_of_mem_expandPattern hfs hbase hpaths p hp
  rw [Path.absolutize_fromRoot _ hnames]
  exact ⟨hfile, names, hnames, rfl⟩

end Pattern

namespace Config

/-! ## What a file says -/

/-- A specification that names its components by a pattern. -/
def IsPattern (spec : ComponentSpec) : Prop := ∃ text, spec = .pattern text

lemma isPattern_of_map {text : Option String} :
    ∀ spec ∈ (text.map ComponentSpec.pattern).toList, IsPattern spec := by
  cases text with
  | none => exact List.forall_mem_nil _
  | some text => exact List.forall_mem_singleton.2 ⟨text, rfl⟩

/-- All sections that are read name their components by patterns. -/
theorem isPattern_of_readSection :
    (∀ v d, readSection v = some d → ∀ spec ∈ d.specs, IsPattern spec) ∧
    (∀ items ds, readSections items = some ds → ∀ spec ∈ sectionsSpecs ds, IsPattern spec) ∧
    (∀ fields ds, readSubsections fields = some ds →
      ∀ spec ∈ sectionsSpecs (ds.getD []), IsPattern spec) := by
  refine readSection.mutual_induct _ _ _ ?table ?array ?other ?nil ?cons ?none ?sections ?kind ?skip
  case table =>
    intro fields ih d h
    simp only [readSection, Option.bind_eq_bind, Option.bind_eq_some_iff] at h
    obtain ⟨_, -, name, -, content, -, components, -, sections, hsections, hd⟩ := h
    cases hd
    rw [SectionDef.specs_eq]
    exact List.forall_mem_append.2 ⟨isPattern_of_map, ih sections hsections⟩
  case array =>
    intro name content components sections more ih d h
    simp only [readSection, Option.bind_eq_bind, Option.bind_eq_some_iff] at h
    obtain ⟨ds, hds, hd⟩ := h
    cases hd
    rw [SectionDef.specs_eq]
    exact List.forall_mem_append.2 ⟨List.forall_mem_singleton.2 ⟨_, rfl⟩, ih ds hds⟩
  case other =>
    intro v htable harray d h
    rw [readSection] at h
    · cases h
    · exact htable
    · exact harray
  case nil =>
    intro ds h
    rw [readSections] at h
    cases h
    exact List.forall_mem_nil _
  case cons =>
    intro v rest ihv ihrest ds h
    simp only [readSections, Option.bind_eq_bind, Option.bind_eq_some_iff] at h
    obtain ⟨d, hd, others, hothers, hds⟩ := h
    cases hds
    rw [sectionsSpecs]
    exact List.forall_mem_append.2 ⟨ihv d hd, ihrest others hothers⟩
  case none =>
    intro ds h
    rw [readSubsections] at h
    cases h
    exact List.forall_mem_nil _
  case sections =>
    intro rest items ih ds h
    rw [readSubsections, if_pos rfl] at h
    obtain ⟨ds, hds, rfl⟩ := Option.map_eq_some_iff.1 h
    exact ih ds hds
  case kind =>
    intro v rest harray ds h
    rw [readSubsections, if_pos rfl] at h
    · cases h
    · exact harray
  case skip =>
    intro k v rest hk ih ds h
    unfold readSubsections at h
    rw [if_neg hk] at h
    exact ih ds h

section Fields

variable {directory : Path} {fields : List (String × Toml)} {c : Config}
  {written shared : Option String}

/-- The assets of components are looked for beside them, and components are named by patterns. -/
lemma locator_of_ofFields (h : ofFields directory fields = some c) :
    (∃ examplesFile, c.locator = .sibling examplesFile) ∧ ∀ spec ∈ c.specs, IsPattern spec := by
  simp only [ofFields, Option.bind_eq_bind, Option.bind_eq_some_iff] at h
  obtain ⟨_, -, _, -, components, -, sections, hsections, _, -, _, -, _, -, _, -, _, -, _, -, h⟩ :=
    h
  cases h
  exact ⟨⟨_, rfl⟩, List.forall_mem_append.2
    ⟨isPattern_of_map, isPattern_of_readSection.2.2 fields sections hsections⟩⟩

/-- The shared examples are seen from the base directory as it was written. -/
lemma defaultExample_of_ofFields (h : ofFields directory fields = some c)
    (hshared : textField "default_example" fields = some shared) :
    c.defaultExample = shared.map fun p => c.baseDir.absolutize (.ofString p) := by
  rw [ofFields, hshared] at h
  simp only [Option.bind_eq_bind, Option.bind_eq_some_iff, Option.some.injEq, exists_eq_left'] at h
  obtain ⟨_, -, _, -, _, -, _, -, _, -, _, -, _, -, _, -, _, -, h⟩ := h
  cases h
  rfl

end Fields

/-! ## The shared examples -/

/-- One of the three paths that lead to the shared examples is absolute: the one to the
configuration file, the base directory that is written there, or the path to the examples. -/
def SharedIsAbsolute (file : Path) (written : Option String) (shared : String) : Prop :=
  file.isAbsolute = true ∨ (∃ d, written = some d ∧ (Path.ofString d).isAbsolute = true) ∨
    (Path.ofString shared).isAbsolute = true

section Shared

variable {file : Path} {written : Option String} {c : Config}

lemma isAbsolute_absolutize (base p : Path) :
    (base.absolutize p).isAbsolute = (base.isAbsolute || p.isAbsolute) := by
  rw [Path.absolutize_eq, Path.isAbsolute_normalize, Path.isAbsolute_join_eq]

/-- The directory of a configuration file is absolute where the file is. -/
lemma isAbsolute_directoryOf (hfile : fs.isFile file = true) :
    (directoryOf file).isAbsolute = file.isAbsolute := by
  obtain ⟨q, hq⟩ := exists_parent?_of_isFile hfile
  have hparts := parts_directoryOf file
  rw [hq, Option.getD_some] at hparts
  rw [Path.isAbsolute_congr hparts, Path.isAbsolute_of_parent? hq]

lemma isAbsolute_absolutize_baseDir_iff (hfile : fs.isFile file = true)
    (hbase : c.baseDir = written.elim (directoryOf file)
      fun d => (directoryOf file).absolutize (.ofString d)) (shared : String) :
    (c.baseDir.absolutize (.ofString shared)).isAbsolute = true ↔
      SharedIsAbsolute file written shared := by
  rw [isAbsolute_absolutize, hbase, SharedIsAbsolute]
  cases written with
  | none => simp [isAbsolute_directoryOf hfile]
  | some d => simp [isAbsolute_absolutize, isAbsolute_directoryOf hfile, or_assoc]

end Shared

/-! ## References -/

lemma path_of_isDocumentOf {c : Config} {document : Path} {name : String} {r : Reference}
    (h : r.IsDocumentOf fs c document name) :
    r.path = document ∨ c.defaultExample = some r.path := by
  cases h with
  | own => exact .inl rfl
  | shared _ h => exact .inr h

/-- The references of an entry are to the file, to one of its assets, or to the shared examples. -/
lemma path_of_mem_references_build {c : Config} {f : Path} {r : Reference}
    (h : r ∈ (ComponentEntry.build fs c f).references) :
    r.path = f ∨ (∃ suffix, r.path = c.locator f suffix) ∨ c.defaultExample = some r.path := by
  simp only [ComponentEntry.references, ComponentEntry.build, List.mem_append,
    Option.mem_toList] at h
  rcases h with ((hdesign | hexamples) | hmodule) | hprops
  · have hdocument := isDocumentOf_of_mem_examplesReference hdesign
    exact .inr ((path_of_isDocumentOf hdocument).imp_left fun h => ⟨_, h⟩)
  · split at hexamples
    · cases hexamples
    · have hdocument := isDocumentOf_of_mem_examplesReference hexamples
      exact .inr ((path_of_isDocumentOf hdocument).imp_left fun h => ⟨_, h⟩)
  · split at hmodule
    · cases hmodule
    · cases hmodule
      exact .inl rfl
  · split at hprops
    · cases hprops
    · rw [List.mem_singleton.1 hprops]
      exact .inl rfl

/-- The assets of a file are as absolute as the file is. -/
lemma isAbsolute_sibling {examplesFile : String} {f : Path} (hfile : fs.isFile f = true)
    (habsolute : f.isAbsolute = true) (suffix : Option String) :
    (Locator.sibling examplesFile f suffix).isAbsolute = true := by
  obtain ⟨q, hq⟩ := exists_parent?_of_isFile hfile
  rw [Locator.sibling, hq, Option.getD_some, Path.isAbsolute_join_eq,
    Path.isAbsolute_of_parent? hq, habsolute, Bool.true_or]

/-- A reference of a configuration whose components are named by patterns is absolute, or it is to
the shared examples. -/
lemma isAbsolute_of_mem_references (hfs : fs.WellFormed) {c : Config} {examplesFile : String}
    (hlocator : c.locator = .sibling examplesFile) (hspecs : ∀ spec ∈ c.specs, IsPattern spec)
    {t : Tree} (h : compile fs c = .ok t) {r : Reference} (hr : r ∈ t.references) :
    r.path.isAbsolute = true ∨ c.defaultExample = some r.path := by
  have hbase := isAbsolute_baseDirectory (compile_eq_ok_iff.1 h).1
  rcases mem_references_tree h hr with ⟨p, rfl⟩ | ⟨e, he, hr⟩
  · refine .inl ?_
    change (c.resolvePath fs p).isAbsolute = true
    rw [resolvePath, isAbsolute_absolutize, hbase, Bool.true_or]
  · obtain ⟨spec, hspec, files, hfiles, f, hf, rfl⟩ := exists_isEntryOf_of_mem_entries h he
    obtain ⟨pattern, rfl⟩ := hspecs spec hspec
    obtain ⟨hfile, names, hnames, rfl⟩ := isFile_of_mem_filesOf hfs hbase hfiles f hf
    have habsolute := Path.isAbsolute_fromRoot hnames
    rcases path_of_mem_references_build hr with hpath | ⟨suffix, hpath⟩ | hshared
    · exact .inl (hpath ▸ habsolute)
    · rw [hpath, hlocator]
      exact .inl (isAbsolute_sibling hfile habsolute suffix)
    · exact .inr hshared

/-- The references of a style guide that a configuration file describes are absolute, whichever way
the file was named, but for those to the shared examples. These are absolute only where one of the
paths that lead to the shared examples is. -/
theorem isAbsolute_references_of_load (hfs : fs.WellFormed) {file : Path} {text : String}
    {fields : List (String × Toml)} {written shared : Option String} {c : Config} {t : Tree}
    (hread : fs.readText file = .ok text) (hparse : Toml.parse? text = some fields)
    (hwritten : textField "base_dir" fields = some written)
    (hshared : textField "default_example" fields = some shared)
    (hload : load fs file = .ok c) (hcompile : compile fs c = .ok t) :
    ∀ r ∈ t.references, r.path.isAbsolute = false ↔
      c.defaultExample = some r.path ∧
        ∃ p, shared = some p ∧ ¬ SharedIsAbsolute file written p := by
  intro r hr
  have hfields := exists_ofFields_of_load hread hparse hload
  have hdefault := defaultExample_of_ofFields hfields hshared
  have habsolute := isAbsolute_absolutize_baseDir_iff (isFile_of_readText hread)
    (baseDir_of_ofFields hfields hwritten)
  constructor
  · intro hrelative
    obtain ⟨⟨examplesFile, hlocator⟩, hspecs⟩ := locator_of_ofFields hfields
    rcases isAbsolute_of_mem_references hfs hlocator hspecs hcompile hr with h | h
    · rw [h] at hrelative
      cases hrelative
    · obtain ⟨p, hp, hpath⟩ := Option.map_eq_some_iff.1 (hdefault.symm.trans h)
      rw [← hpath, ← Bool.not_eq_true, habsolute] at hrelative
      exact ⟨h, p, hp, hrelative⟩
  · rintro ⟨h, p, rfl, hp⟩
    rw [hdefault, Option.map_some, Option.some.injEq] at h
    rwa [← h, ← Bool.not_eq_true, habsolute]

/-! ### One component without examples -/

/-- What a configuration file says about its components and the shared examples. -/
def sharedText : String := "components = \"*.js\"\ndefault_example = \"tpl.md\"\n"

/-- A component without examples, beside a configuration file and shared examples in the root. -/
def sharedProject : FileSystem where
  entries := [([Utf8.encode "styleguide.toml"], .file (Utf8.encode sharedText)),
    ([Utf8.encode "Card.js"], .file []), ([Utf8.encode "tpl.md"], .file [])]
  current := []

lemma wellFormed_sharedProject : sharedProject.WellFormed := by
  have hlinks : sharedProject.LinkFree := by decide +kernel
  exact ⟨by decide +kernel, by decide +kernel, hlinks.link_no_nul⟩

/-- What the style guide refers to, where this path leads to the shared examples. -/
def sharedReferences (shared : String) : List Reference :=
  let examples : Reference :=
    ⟨.examples, .ofString shared, [("imagePath", ""), ("componentName", "Card")]⟩
  [examples, examples, .bare .module (.ofString "/Card.js"), .bare .props (.ofString "/Card.js")]

lemma exists_compile_of_references {file : Path} {refs : List Reference}
    (h : ((load fs file).toOption.bind fun c => (compile fs c).toOption).map (·.references) =
      some refs) :
    ∃ c t, load fs file = .ok c ∧ compile fs c = .ok t ∧ t.references = refs := by
  obtain ⟨t, ht, hrefs⟩ := Option.map_eq_some_iff.1 h
  obtain ⟨c, hload, hcompile⟩ := Option.bind_eq_some_iff.1 ht
  exact ⟨c, t, toOption_eq_some_iff.1 hload, toOption_eq_some_iff.1 hcompile, hrefs⟩

/-- Named from the root, the configuration file leads to absolute references. -/
theorem isAbsolute_references_of_load_root :
    ∃ c t, load sharedProject (.ofString "/styleguide.toml") = .ok c ∧
      compile sharedProject c = .ok t ∧ ∀ r ∈ t.references, r.path.isAbsolute = true := by
  have hread : sharedProject.readText (.ofString "/styleguide.toml") = .ok sharedText := by
    decide +kernel
  obtain ⟨fields, hparse, hfields⟩ : ∃ fields, Toml.parse? sharedText = some fields ∧
      (textField "base_dir" fields, textField "default_example" fields) =
        (some none, some (some "tpl.md")) :=
    Option.map_eq_some_iff.1 (by decide +kernel)
  obtain ⟨hwritten, hshared⟩ := Prod.mk.inj hfields
  obtain ⟨c, t, hload, ht, -⟩ : ∃ c t,
      load sharedProject (.ofString "/styleguide.toml") = .ok c ∧
      compile sharedProject c = .ok t ∧ t.references = sharedReferences "/tpl.md" :=
    exists_compile_of_references (by decide +kernel)
  refine ⟨c, t, hload, ht, fun r hr => ?_⟩
  rw [← Bool.not_eq_false]
  intro hrelative
  obtain ⟨-, p, hp, hrooted⟩ := (isAbsolute_references_of_load wellFormed_sharedProject hread
    hparse hwritten hshared hload ht r hr).1 hrelative
  cases hp
  exact hrooted (.inl rfl)

/-- Named from its own directory, it does not: the reference to the shared examples is relative,
though all that is beside them is named from the root. -/
theorem relative_reference_of_load :
    ∃ c t, load sharedProject (.ofString "styleguide.toml") = .ok c ∧
      compile sharedProject c = .ok t ∧
      ⟨.examples, .ofString "tpl.md", [("imagePath", ""), ("componentName", "Card")]⟩ ∈
        t.references ∧
      (Path.ofString "tpl.md").isAbsolute = false := by
  obtain ⟨c, t, hload, ht, hrefs⟩ : ∃ c t,
      load sharedProject (.ofString "styleguide.toml") = .ok c ∧
      compile sharedProject c = .ok t ∧ t.references = sharedReferences "tpl.md" :=
    exists_compile_of_references (by decide +kernel)
  exact ⟨c, t, hload, ht, hrefs ▸ List.mem_cons_self, rfl⟩

end Config

end StyleGuide
