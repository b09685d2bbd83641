import StyleGuide.Proofs.Component.Entry

/-!
# Leaving out components without examples

A configuration can say that components without an examples document of their own are left out.
That is decided when the files of a specification are found, long before the entries are made, and
it comes to the same as taking these entries out of the finished style guide. What is left has its
own examples, so the shared ones are put nowhere.

## Main definitions

* `Tree.filterEntries`: the style guide without some of its entries.
* `ComponentEntry.hasOwnExamples`: there is an examples document for the component.
* `Config.skipping`, `Config.keeping`: the configuration that leaves such components out, and the
  one that keeps them.

## Main results

* `compile_skipping`: the style guide that leaves components out is the other one without their
  entries.
-/

namespace StyleGuide

/-! ## Entries taken out of a style guide -/

mutual

/-- The section with those entries alone that are kept, also in the sections below it. -/
def Section.filterEntries (keep : ComponentEntry → Bool) : Section → Section
  | ⟨name, content, components, none⟩ =>
    ⟨name, content, components.map (List.filter keep), none⟩
  | ⟨name, content, components, some sections⟩ =>
    ⟨name, content, components.map (List.filter keep), some (filterSections keep sections)⟩

/-- The sections with those entries alone that are kept. -/
def filterSections (keep : ComponentEntry → Bool) : List Section → List Section
  | [] => []
  | s :: rest => s.filterEntries keep :: filterSections keep rest

end

/-- The style guide with those entries alone that are kept. -/
def Tree.filterEntries (keep : ComponentEntry → Bool) (t : Tree) : Tree :=
  { t with
    components := t.components.map (List.filter keep)
    sections := t.sections.map (filterSections keep) }

variable {fs : FileSystem} {c c' : Config} {keep : ComponentEntry → Bool}

lemma Section.filterEntries_eq (s : Section) :
    s.filterEntries keep =
      ⟨s.name, s.content, s.components.map (List.filter keep),
        s.sections.map (filterSections keep)⟩ := by
  obtain ⟨_, _, _, _ | _⟩ := s <;> rw [filterEntries] <;> rfl

/-- Of the entries of each specification, one configuration has those that are kept from the
other. -/
structure Keeps (fs : FileSystem) (c' c : Config) (keep : ComponentEntry → Bool) : Prop where
  components : ∀ spec, buildComponents fs c' spec =
    (buildComponents fs c spec).map (Option.map (List.filter keep))
  paths : c'.resolvePath fs = c.resolvePath fs

lemma buildSections?_of_keeps {defs : Option (List SectionDef)}
    (h : buildSections fs c' (defs.getD []) =
      (buildSections fs c (defs.getD [])).map (filterSections keep)) :
    buildSections? fs c' defs =
      (buildSections? fs c defs).map (Option.map (filterSections keep)) := by
  cases defs with
  | none => rfl
  | some ds =>
    rw [Option.getD_some] at h
    rw [buildSections?, buildSections?, h]
    cases buildSections fs c ds <;> rfl

/-- Then sections have the entries that are kept from the sections of the other configuration. -/
theorem buildSections_filter (h : Keeps fs c' c keep) (defs : List SectionDef) :
    buildSections fs c' defs = (buildSections fs c defs).map (filterSections keep) := by
  refine sections_induction
    (P := fun d => Section.build fs c' d = (Section.build fs c d).map (·.filterEntries keep))
    (Q := fun defs => buildSections fs c' defs =
      (buildSections fs c defs).map (filterSections keep)) ?_ ?_ ?_ defs
  · intro d ih
    rw [Section.build_eq, Section.build_eq, h.components, buildSections?_of_keeps ih, h.paths]
    cases buildComponents fs c d.components with
    | error e => rfl
    | ok components =>
      cases buildSections? fs c d.sections with
      | error e => rfl
      | ok sections =>
        change Except.ok _ = Except.ok (Section.filterEntries keep _)
        rw [Section.filterEntries_eq]
  · rw [buildSections, buildSections, Except.map, filterSections]
  · intro d rest hd hrest
    rw [buildSections, buildSections, hd, hrest]
    cases Section.build fs c d with
    | error e => rfl
    | ok s =>
      cases buildSections fs c rest with
      | error e => rfl
      | ok others =>
        change Except.ok _ = Except.ok (filterSections keep _)
        rw [filterSections]

lemma buildSections?_filter (h : Keeps fs c' c keep) (defs : Option (List SectionDef)) :
    buildSections? fs c' defs =
      (buildSections? fs c defs).map (Option.map (filterSections keep)) :=
  buildSections?_of_keeps (buildSections_filter h _)

/-! ## Components without examples -/

/-- There is an examples document for the component itself. -/
def ComponentEntry.hasOwnExamples (fs : FileSystem) (c : Config) (e : ComponentEntry) : Bool :=
  fs.pathExists (c.locator e.filepath none)

namespace Config

/-- The configuration, but components without examples are left out. -/
def skipping (c : Config) : Config := { c with skipWithoutExample := true }

/-- The configuration, but components without examples are kept. -/
def keeping (c : Config) : Config := { c with skipWithoutExample := false }

end Config

/-- The files of a specification without those that have no examples. -/
lemma filesOf_skipping (fs : FileSystem) (c : Config) (spec : ComponentSpec) :
    filesOf fs c.skipping spec =
      (filesOf fs c.keeping spec).map (List.filter fun f => fs.pathExists (c.locator f none)) := by
  have hpaths : pathsOf fs c.skipping spec = pathsOf fs c.keeping spec := by
    cases spec <;> rfl
  rw [filesOf_eq, filesOf_eq, hpaths]
  cases pathsOf fs c.keeping spec <;> rfl

lemma buildComponents_skipping (fs : FileSystem) (c : Config) (spec : Option ComponentSpec) :
    buildComponents fs c.skipping spec =
      (buildComponents fs c.keeping spec).map
        (Option.map (List.filter (·.hasOwnExamples fs c))) := by
  cases spec with
  | none => rfl
  | some spec =>
    have hbuild : ComponentEntry.build fs c.skipping = ComponentEntry.build fs c.keeping := rfl
    have hfiles := filesOf_skipping fs c spec
    unfold filesOf at hfiles
    rw [buildComponents, buildComponents, hfiles, hbuild]
    cases resolveComponents fs c.keeping (some spec) with
    | error e => rfl
    | ok files =>
      simp only [Except.map, Option.map_some, List.filter_map]
      rfl

/-- What is left has its own examples, and so the shared ones have no part in it. -/
lemma examples_of_isEntryOf_skipping {spec : ComponentSpec} {e : ComponentEntry}
    (h : IsEntryOf fs c.skipping spec e) :
    e.hasOwnExamples fs c = true ∧
      (e.isDesignDocument = false → e.examples =
        some ⟨.examples, c.locator e.filepath none, [("imagePath", c.imagePath)]⟩) := by
  obtain ⟨files, hfiles, f, hf, rfl⟩ := h
  rw [filesOf_skipping, map_eq_ok_iff] at hfiles
  obtain ⟨all, -, rfl⟩ := hfiles
  have hexists : fs.pathExists (c.locator f none) = true := (List.mem_filter.1 hf).2
  refine ⟨hexists, fun hnotes => ?_⟩
  have hdesign : f.isDesignDocument = false := hnotes
  change (if f.isDesignDocument then none
    else examplesReference fs (c.locator f none) _ c.defaultExample c.imagePath) = _
  rw [hdesign, if_neg (by decide), examplesReference_of_pathExists hexists]
  rfl

/-! ## The whole style guide -/

lemma keeps_skipping (fs : FileSystem) (c : Config) :
    Keeps fs c.skipping c.keeping (·.hasOwnExamples fs c) :=
  ⟨buildComponents_skipping fs c, rfl⟩

lemma compile_skipping_eq_filter (fs : FileSystem) (c : Config) :
    compile fs c.skipping =
      (compile fs c.keeping).map (Tree.filterEntries (·.hasOwnExamples fs c)) := by
  have hbase : c.skipping.baseDirectory fs = c.keeping.baseDirectory fs := rfl
  have hcomponents : c.skipping.components = c.keeping.components := rfl
  have hsections : c.skipping.sections = c.keeping.sections := rfl
  rw [compile, compile, buildComponents_skipping, buildSections?_filter (keeps_skipping fs c),
    hbase, hcomponents, hsections]
  cases checkBaseDirectory fs (c.keeping.baseDirectory fs) with
  | error e => rfl
  | ok _ =>
    cases buildComponents fs c.keeping c.keeping.components with
    | error e => rfl
    | ok components => cases buildSections? fs c.keeping c.keeping.sections <;> rfl

/-- Leaving out the components without examples is the same as keeping them and taking out, at all
levels, those entries whose examples document is not there. This holds for the files of each
specification and for the whole style guide, and a failure is the same failure. All entries that are
left have their own examples; where they are no design notes they refer to them, and not to the
shared ones. -/
theorem compile_skipping (fs : FileSystem) (c : Config) :
    (∀ spec, resolveComponents fs c.skipping spec =
      (resolveComponents fs c.keeping spec).map
        (List.filter fun f => fs.pathExists (c.locator f none))) ∧
    compile fs c.skipping =
      (compile fs c.keeping).map (Tree.filterEntries (·.hasOwnExamples fs c)) ∧
    ∀ t, compile fs c.skipping = .ok t → ∀ e ∈ t.entries,
      e.hasOwnExamples fs c = true ∧
      (e.isDesignDocument = false → e.examples =
        some ⟨.examples, c.locator e.filepath none, [("imagePath", c.imagePath)]⟩) := by
  refine ⟨fun spec => ?_, compile_skipping_eq_filter fs c, fun t h e he => ?_⟩
  · cases spec with
    | none => rfl
    | some spec => exact filesOf_skipping fs c spec
  · obtain ⟨spec, -, he⟩ := exists_isEntryOf_of_mem_entries h he
    exact examples_of_isEntryOf_skipping he

/-- One of two components has examples beside it. -/
def explainedCard : FileSystem where
  entries := [([Utf8.encode "Button.js"], .file []), ([Utf8.encode "card"], .directory),
    ([Utf8.encode "card", Utf8.encode "Card.js"], .file []),
    ([Utf8.encode "card", Utf8.encode "examples.md"], .file [])]
  current := []

/-- The component with examples, listed twice around the other one. -/
def explainedSpec : ComponentSpec :=
  .listed [.ofString "card/Card.js", .ofString "Button.js", .ofString "card/Card.js"]

/-- A section with these components, and examples for all that have none. -/
def explainedConfig : Config :=
  { Config.standard with
    defaultExample := some (.ofString "/shared.md")
    sections := some [⟨"Cards", none, some explainedSpec, none⟩] }

lemma filesOf_explainedSpec :
    filesOf explainedCard explainedConfig.keeping explainedSpec =
        .ok [.ofString "/card/Card.js", .ofString "/Button.js", .ofString "/card/Card.js"] ∧
      filesOf explainedCard explainedConfig.skipping explainedSpec =
        .ok [.ofString "/card/Card.js", .ofString "/card/Card.js"] := by
  decide +kernel

/-- The component without examples is taken out, and the other one is left twice. -/
theorem compile_skipping_explainedCard :
    ∃ t, compile explainedCard explainedConfig.keeping = .ok t ∧
      t.entries.map (·.filepath) = [.ofString "/card/Card.js", .ofString "/Button.js",
        .ofString "/card/Card.js"] ∧
      (t.filterEntries (·.hasOwnExamples explainedCard explainedConfig)).entries.map (·.filepath) =
        [.ofString "/card/Card.js", .ofString "/card/Card.js"] := by
  obtain ⟨-, hskipping, -⟩ := compile_skipping explainedCard explainedConfig
  obtain ⟨t, ht, hkept⟩ := exists_compile_of_specs (c := explainedConfig.keeping) rfl
    (by decide +kernel) filesOf_explainedSpec.1
  obtain ⟨t', ht', hleft⟩ := exists_compile_of_specs (c := explainedConfig.skipping) rfl
    (by decide +kernel) filesOf_explainedSpec.2
  rw [ht, ht', Except.map, Except.ok.injEq] at hskipping
  refine ⟨t, ht, ?_, ?_⟩
  · rw [hkept]
    rfl
  · rw [← hskipping, hleft]
    rfl

end StyleGuide
