import StyleGuide.Proofs.Compilation
import StyleGuide.Proofs.Resolution

/-!
# The entries of a compiled style guide

Every entry of a style guide, at whatever depth, is the entry of a file that one of the
specifications stands for. So what holds for the entries of all these files holds for the whole
style guide, and nothing but entries and the documents of sections has references.

## Main definitions

* `Tree.entries`: the entries at all levels, in order.
* `IsEntryOf`: an entry is that of a file of a specification.

## Main results

* `entries_tree`: the entries are those of the specifications, in order.
* `exists_isEntryOf_of_mem_entries`: where an entry comes from.
* `mem_references_tree`: where a reference comes from.
-/

namespace StyleGuide

mutual

/-- The entries of a section: its own, and then those of the sections below it. -/
def Section.entries : Section → List ComponentEntry
  | ⟨_, _, components, none⟩ => components.getD []
  | ⟨_, _, components, some sections⟩ => components.getD [] ++ sectionsEntries sections

/-- The entries of sections. -/
def sectionsEntries : List Section → List ComponentEntry
  | [] => []
  | s :: rest => s.entries ++ sectionsEntries rest

end

/-- The entries of a tree at all levels, in order. -/
def Tree.entries (t : Tree) : List ComponentEntry :=
  t.components.getD [] ++ sectionsEntries (t.sections.getD [])

variable {fs : FileSystem} {c : Config}

/-! ## The entries of a specification -/

/-- The entries of the files that a specification stands for. -/
def entriesOf (fs : FileSystem) (c : Config) (spec : ComponentSpec) : List ComponentEntry :=
  ((filesOf fs c spec).toOption.getD []).map (.build fs c)

/-- An entry is that of a file of a specification. -/
def IsEntryOf (fs : FileSystem) (c : Config) (spec : ComponentSpec) (e : ComponentEntry) : Prop :=
  ∃ files, filesOf fs c spec = .ok files ∧ ∃ f ∈ files, e = .build fs c f

lemma isEntryOf_of_mem_entriesOf {spec : ComponentSpec} {e : ComponentEntry}
    (h : e ∈ entriesOf fs c spec) : IsEntryOf fs c spec e := by
  unfold entriesOf at h
  cases hfiles : filesOf fs c spec with
  | error => simp [hfiles, Except.toOption] at h
  | ok files =>
    rw [hfiles] at h
    obtain ⟨f, hf, rfl⟩ := List.mem_map.1 h
    exact ⟨files, hfiles, f, hf, rfl⟩

lemma getD_of_buildComponents {spec : Option ComponentSpec}
    {components : Option (List ComponentEntry)} (h : buildComponents fs c spec = .ok components) :
    components.getD [] = spec.toList.flatMap (entriesOf fs c) := by
  cases spec with
  | none =>
    cases h
    rfl
  | some spec =>
    obtain ⟨files, hfiles, rfl⟩ := map_eq_ok_iff.1 h
    simp [entriesOf, filesOf, hfiles, Except.toOption]

/-! ## The entries of all specifications -/

lemma Section.entries_eq (s : Section) :
    s.entries = s.components.getD [] ++ sectionsEntries (s.sections.getD []) := by
  obtain ⟨_, _, _, _ | _⟩ := s <;> simp [entries, sectionsEntries]

/-- Sections have the entries of their specifications and of those below them. -/
theorem sectionsEntries_of_buildSections? {defs : Option (List SectionDef)}
    {sections : Option (List Section)} (h : buildSections? fs c defs = .ok sections) :
    sectionsEntries (sections.getD []) =
      (sectionsSpecs (defs.getD [])).flatMap (entriesOf fs c) := by
  refine build_induction (P := fun d s => s.entries = d.specs.flatMap (entriesOf fs c))
    (Q := fun defs sections =>
      sectionsEntries sections = (sectionsSpecs defs).flatMap (entriesOf fs c)) ?_ rfl ?_ h
  · intro d s hs ih
    rw [Section.entries_eq, SectionDef.specs_eq, List.flatMap_append,
      getD_of_buildComponents (Section.exists_of_build hs).2.2.1, ih]
  · intro d s rest others hd hrest
    rw [sectionsEntries, sectionsSpecs, List.flatMap_append, hd, hrest]

/-- The entries of a style guide are those of its specifications, in order. -/
theorem entries_tree {t : Tree} (h : compile fs c = .ok t) :
    t.entries = c.specs.flatMap (entriesOf fs c) := by
  obtain ⟨-, -, hcomponents, hsections⟩ := compile_eq_ok_iff.1 h
  rw [Tree.entries, Config.specs, List.flatMap_append, getD_of_buildComponents hcomponents,
    sectionsEntries_of_buildSections? hsections]

/-- Where there is one specification, its files are compiled. -/
lemma exists_compile_of_specs {spec : ComponentSpec} {files : List Path} (hspecs : c.specs = [spec])
    (hbase : checkBaseDirectory fs (c.baseDirectory fs) = .ok ())
    (hfiles : filesOf fs c spec = .ok files) :
    ∃ t, compile fs c = .ok t ∧ t.entries = files.map (.build fs c) := by
  obtain ⟨t, ht⟩ : ∃ t, compile fs c = .ok t := by
    rw [(follows_compile hbase).exists_eq_ok_iff, hspecs, List.forall_mem_singleton]
    exact ⟨files, hfiles⟩
  refine ⟨t, ht, ?_⟩
  rw [entries_tree ht, hspecs, List.flatMap_singleton, entriesOf, hfiles]
  rfl

theorem exists_isEntryOf_of_mem_entries {t : Tree} (h : compile fs c = .ok t) {e : ComponentEntry}
    (he : e ∈ t.entries) : ∃ spec ∈ c.specs, IsEntryOf fs c spec e := by
  rw [entries_tree h] at he
  obtain ⟨spec, hspec, he⟩ := List.mem_flatMap.1 he
  exact ⟨spec, hspec, isEntryOf_of_mem_entriesOf he⟩

/-! ## References -/

/-- A reference is to the document of a section, or it is one of an entry. -/
def IsReferenceOf (fs : FileSystem) (c : Config) (entries : List ComponentEntry) (r : Reference) :
    Prop :=
  (∃ p, r = .bare .examples (c.resolvePath fs p)) ∨ ∃ e ∈ entries, r ∈ e.references

variable {entries more : List ComponentEntry} {r : Reference}

lemma IsReferenceOf.mono (h : IsReferenceOf fs c entries r) (hsub : entries ⊆ more) :
    IsReferenceOf fs c more r :=
  h.imp id fun ⟨e, he, hr⟩ => ⟨e, hsub he, hr⟩

lemma isReferenceOf_of_mem {components : Option (List ComponentEntry)}
    (h : r ∈ entriesReferences components) : IsReferenceOf fs c (components.getD []) r :=
  .inr (List.mem_flatMap.1 h)

lemma Section.references_eq (s : Section) :
    s.references = s.content.toList ++ entriesReferences s.components ++
      sectionsReferences (s.sections.getD []) := by
  obtain ⟨_, _, _, _ | _⟩ := s <;> simp [references, sectionsReferences]

/-- The references of sections are to their documents, or they are those of their entries. -/
theorem mem_references_of_buildSections? {defs : Option (List SectionDef)}
    {sections : Option (List Section)} (h : buildSections? fs c defs = .ok sections) :
    ∀ r ∈ sectionsReferences (sections.getD []),
      IsReferenceOf fs c (sectionsEntries (sections.getD [])) r := by
  refine build_induction (P := fun _ s => ∀ r ∈ s.references, IsReferenceOf fs c s.entries r)
    (Q := fun _ sections =>
      ∀ r ∈ sectionsReferences sections, IsReferenceOf fs c (sectionsEntries sections) r)
    ?_ (List.forall_mem_nil _) ?_ h
  · intro d s hs ih r hr
    rw [Section.references_eq, List.mem_append, List.mem_append,
      (Section.exists_of_build hs).2.1] at hr
    rw [Section.entries_eq]
    rcases hr with (hr | hr) | hr
    · obtain ⟨p, -, rfl⟩ := Option.map_eq_some_iff.1 (Option.mem_toList.1 hr)
      exact .inl ⟨p, rfl⟩
    · exact (isReferenceOf_of_mem hr).mono (List.subset_append_left _ _)
    · exact (ih r hr).mono (List.subset_append_right _ _)
  · intro d s rest others hd hrest r hr
    rw [sectionsReferences, List.mem_append] at hr
    rw [sectionsEntries]
    rcases hr with hr | hr
    · exact (hd r hr).mono (List.subset_append_left _ _)
    · exact (hrest r hr).mono (List.subset_append_right _ _)

/-- The references of a style guide are to documents of sections, or they are those of its
entries. -/
theorem mem_references_tree {t : Tree} (h : compile fs c = .ok t) (hr : r ∈ t.references) :
    IsReferenceOf fs c t.entries r := by
  obtain ⟨-, -, -, hsections⟩ := compile_eq_ok_iff.1 h
  rw [Tree.references, List.mem_append] at hr
  rcases hr with hr | hr
  · exact (isReferenceOf_of_mem hr).mono (List.subset_append_left _ _)
  · exact (mem_references_of_buildSections? hsections r hr).mono (List.subset_append_right _ _)

end StyleGuide
