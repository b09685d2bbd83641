import Mathlib.Algebra.GroupWithZero.Nat
import Mathlib.Tactic.Common
import StyleGuide.Proofs.Sequence
import StyleGuide.Tree

/-!
# Compiling a style guide

Each section of a compiled style guide stands for one section of the configuration, and has what
that one asks for by itself. Nothing but the base directory and the component specifications can
make a compilation fail; they are looked at in the order in which they are written, a section's own
specification before those of the sections below it.

## Main definitions

* `SectionDef.specs`, `Config.specs`: the component specifications, in the order in which they are
  written.
* `Section.Mirrors`, `Tree.Mirrors`: what a section stands for, and what a style guide stands for.
* `Config.setSpec`, `Tree.setComponents`: change what one section alone has.

## Main results

* `sections_induction`, `build_induction`: what holds of sections when it holds of those below them.
* `compile_mirrors`: when a configuration can be compiled, what comes out, and which failure is
  reported otherwise.
-/

namespace StyleGuide

/-! ## The specifications of a configuration -/

mutual

/-- The specifications of a section: its own, and then those of the sections below it. -/
def SectionDef.specs : SectionDef → List ComponentSpec
  | ⟨_, _, spec, none⟩ => spec.toList
  | ⟨_, _, spec, some defs⟩ => spec.toList ++ sectionsSpecs defs

/-- The specifications of sections. -/
def sectionsSpecs : List SectionDef → List ComponentSpec
  | [] => []
  | d :: rest => d.specs ++ sectionsSpecs rest

end

/-- The specifications of a configuration: those of the top level, then those of the sections. -/
def Config.specs (c : Config) : List ComponentSpec :=
  c.components.toList ++ sectionsSpecs (c.sections.getD [])

lemma SectionDef.specs_eq (d : SectionDef) :
    d.specs = d.components.toList ++ sectionsSpecs (d.sections.getD []) := by
  obtain ⟨_, _, _, _ | _⟩ := d <;> simp [specs, sectionsSpecs]

mutual

/-- What holds of a section where it holds of the sections below it holds of all sections. -/
theorem SectionDef.induction {P : SectionDef → Prop} {Q : List SectionDef → Prop}
    (hsection : ∀ d, Q (d.sections.getD []) → P d) (hnil : Q [])
    (hcons : ∀ d rest, P d → Q rest → Q (d :: rest)) : ∀ d, P d
  | ⟨_, _, _, none⟩ => hsection _ hnil
  | ⟨_, _, _, some defs⟩ => hsection _ (sections_induction hsection hnil hcons defs)

theorem sections_induction {P : SectionDef → Prop} {Q : List SectionDef → Prop}
    (hsection : ∀ d, Q (d.sections.getD []) → P d) (hnil : Q [])
    (hcons : ∀ d rest, P d → Q rest → Q (d :: rest)) : ∀ defs, Q defs
  | [] => hnil
  | d :: rest =>
    hcons d rest (SectionDef.induction hsection hnil hcons d)
      (sections_induction hsection hnil hcons rest)

end

section

variable (fs : FileSystem) (c : Config)

/-- The files of one specification. -/
def filesOf (spec : ComponentSpec) : Except CompileError (List Path) :=
  resolveComponents fs c (some spec)

/-- How many files a specification stands for. -/
def fileCount (spec : ComponentSpec) : Nat := (filesOf fs c spec).toOption.elim 0 List.length

/-- The paths that a specification gives or matches, as they come. -/
def pathsOf : ComponentSpec → Except CompileError (List Path)
  | .listed paths => .ok paths
  | .pattern text => expandPattern fs text (c.baseDirectory fs)

/-- The files are these paths, seen from the base directory; those without examples are left out
where the configuration says so. -/
lemma filesOf_eq (spec : ComponentSpec) :
    filesOf fs c spec = (pathsOf fs c spec).map fun paths =>
      let files := paths.map (c.baseDirectory fs).absolutize
      if c.skipWithoutExample then files.filter fun f => fs.pathExists (c.locator f none)
      else files := by
  cases spec with
  | listed paths => rfl
  | pattern text =>
    simp only [filesOf, resolveComponents, pathsOf]
    cases expandPattern fs text (c.baseDirectory fs) <;> rfl

/-- Each file is one of the paths, seen from the base directory. -/
lemma exists_mem_pathsOf {fs : FileSystem} {c : Config} {spec : ComponentSpec} {files : List Path}
    (h : filesOf fs c spec = .ok files) {f : Path} (hf : f ∈ files) :
    ∃ paths, pathsOf fs c spec = .ok paths ∧
      ∃ p ∈ paths, (c.baseDirectory fs).absolutize p = f := by
  rw [filesOf_eq, map_eq_ok_iff] at h
  obtain ⟨paths, hpaths, rfl⟩ := h
  refine ⟨paths, hpaths, List.mem_map.1 ?_⟩
  split at hf
  · exact List.mem_of_mem_filter hf
  · exact hf

/-! ## What a compiled section stands for -/

/-- A section has the name of its definition, a reference to the same document, the components of
the specification that stands there, and a section for each one below the definition. -/
inductive Section.Mirrors : SectionDef → Section → Prop
  | intro {d : SectionDef} {s : Section} (name : s.name = d.name)
      (content : s.content = d.content.map fun p => .bare .examples (c.resolvePath fs p))
      (components : buildComponents fs c d.components = .ok s.components)
      (sections : Option.Rel (List.Forall₂ Section.Mirrors) d.sections s.sections) :
      Section.Mirrors d s

/-- A style guide is shown as its configuration says, and mirrors its sections. -/
structure Tree.Mirrors (t : Tree) : Prop where
  presentation : t.presentation = ⟨c.title, c.highlightTheme, c.showCode⟩
  components : buildComponents fs c c.components = .ok t.components
  sections : Option.Rel (List.Forall₂ (Section.Mirrors fs c)) c.sections t.sections

end

variable {fs : FileSystem} {c : Config}

/-! ## The steps of a compilation -/

lemma Section.build_eq (d : SectionDef) :
    Section.build fs c d = (do
      let components ← buildComponents fs c d.components
      let sections ← buildSections? fs c d.sections
      pure ⟨d.name, d.content.map fun p => .bare .examples (c.resolvePath fs p), components,
        sections⟩) := by
  obtain ⟨name, content, spec, _ | defs⟩ := d <;> rw [Section.build] <;> rfl

lemma buildSections_eq_mapM (defs : List SectionDef) :
    buildSections fs c defs = defs.mapM (Section.build fs c) := by
  induction defs with
  | nil => rfl
  | cons d rest ih =>
    rw [buildSections, List.mapM_cons, ih]

lemma buildSections_cons_eq_ok_iff {d : SectionDef} {rest : List SectionDef}
    {sections : List Section} :
    buildSections fs c (d :: rest) = .ok sections ↔
      ∃ s others, Section.build fs c d = .ok s ∧ buildSections fs c rest = .ok others ∧
        sections = s :: others := by
  simp only [buildSections, bind_eq_ok_iff]
  constructor
  · rintro ⟨s, hs, others, hothers, h⟩
    cases h
    exact ⟨s, others, hs, hothers, rfl⟩
  · rintro ⟨s, others, hs, hothers, rfl⟩
    exact ⟨s, hs, others, hothers, rfl⟩

lemma Section.exists_of_build {d : SectionDef} {s : Section} (h : Section.build fs c d = .ok s) :
    s.name = d.name ∧
      (s.content = d.content.map fun p => .bare .examples (c.resolvePath fs p)) ∧
      buildComponents fs c d.components = .ok s.components ∧
      buildSections? fs c d.sections = .ok s.sections := by
  rw [Section.build_eq] at h
  obtain ⟨components, hcomponents, h⟩ := bind_eq_ok_iff.1 h
  obtain ⟨sections, hsections, h⟩ := bind_eq_ok_iff.1 h
  cases h
  exact ⟨rfl, rfl, hcomponents, hsections⟩

lemma buildSections_getD {defs : Option (List SectionDef)} {sections : Option (List Section)}
    (h : buildSections? fs c defs = .ok sections) :
    buildSections fs c (defs.getD []) = .ok (sections.getD []) := by
  cases defs with
  | none =>
    cases h
    rfl
  | some ds =>
    obtain ⟨ss, hss, rfl⟩ := map_eq_ok_iff.1 h
    exact hss

/-- What holds of a section that is built where it holds of those below it holds of all sections
that are built. -/
theorem build_induction {P : SectionDef → Section → Prop}
    {Q : List SectionDef → List Section → Prop}
    (hsection : ∀ d s, Section.build fs c d = .ok s →
      Q (d.sections.getD []) (s.sections.getD []) → P d s)
    (hnil : Q [] [])
    (hcons : ∀ d s rest others, P d s → Q rest others → Q (d :: rest) (s :: others))
    {defs : Option (List SectionDef)} {sections : Option (List Section)}
    (h : buildSections? fs c defs = .ok sections) : Q (defs.getD []) (sections.getD []) := by
  refine sections_induction (P := fun d => ∀ s, Section.build fs c d = .ok s → P d s)
    (Q := fun defs => ∀ sections, buildSections fs c defs = .ok sections → Q defs sections)
    ?_ ?_ ?_ (defs.getD []) _ (buildSections_getD h)
  · intro d ih s hs
    exact hsection d s hs (ih _ (buildSections_getD (Section.exists_of_build hs).2.2.2))
  · intro sections hsections
    cases hsections
    exact hnil
  · intro d rest hd hrest sections hsections
    obtain ⟨s, others, hs, hothers, rfl⟩ := buildSections_cons_eq_ok_iff.1 hsections
    exact hcons d s rest others (hd s hs) (hrest others hothers)

/-! ## What can fail -/

lemma follows_components (spec : Option ComponentSpec) :
    Follows (filesOf fs c) spec.toList (buildComponents fs c spec) := by
  cases spec with
  | none => exact .ok _
  | some spec => exact .step

lemma follows_sections?_of {defs : Option (List SectionDef)}
    (h : Follows (filesOf fs c) (sectionsSpecs (defs.getD []))
      (buildSections fs c (defs.getD []))) :
    Follows (filesOf fs c) (sectionsSpecs (defs.getD [])) (buildSections? fs c defs) := by
  cases defs with
  | none => exact .ok _
  | some defs => exact h.map some

/-- Sections can be built when their specifications and those below them stand for files. -/
theorem follows_sections (defs : List SectionDef) :
    Follows (filesOf fs c) (sectionsSpecs defs) (buildSections fs c defs) := by
  refine sections_induction (P := fun d => Follows (filesOf fs c) d.specs (Section.build fs c d))
    (Q := fun defs => Follows (filesOf fs c) (sectionsSpecs defs) (buildSections fs c defs))
    ?_ (.ok _) ?_ defs
  · intro d ih
    rw [Section.build_eq, SectionDef.specs_eq]
    exact (follows_components _).bind fun _ _ => (follows_sections?_of ih).map _
  · intro d rest hd hrest
    exact hd.bind fun _ _ => hrest.map _

lemma follows_sections? (defs : Option (List SectionDef)) :
    Follows (filesOf fs c) (sectionsSpecs (defs.getD [])) (buildSections? fs c defs) :=
  follows_sections?_of (follows_sections _)

/-! ## What comes out -/

lemma entryCount_of_buildComponents {spec : Option ComponentSpec}
    {components : Option (List ComponentEntry)} (h : buildComponents fs c spec = .ok components) :
    entryCount components = (spec.toList.map (fileCount fs c)).sum := by
  cases spec with
  | none =>
    cases h
    rfl
  | some spec =>
    obtain ⟨files, hfiles, rfl⟩ := map_eq_ok_iff.1 h
    simp [entryCount, fileCount, filesOf, hfiles, Except.toOption]

lemma Section.componentCount_eq (s : Section) :
    s.componentCount = entryCount s.components + countComponents (s.sections.getD []) := by
  obtain ⟨_, _, _, _ | _⟩ := s <;> simp [componentCount, countComponents]

/-- Sections count the files of their specifications and of those below them. -/
theorem countComponents_of_buildSections? {defs : Option (List SectionDef)}
    {sections : Option (List Section)} (h : buildSections? fs c defs = .ok sections) :
    countComponents (sections.getD []) =
      ((sectionsSpecs (defs.getD [])).map (fileCount fs c)).sum := by
  refine build_induction
    (P := fun d s => s.componentCount = (d.specs.map (fileCount fs c)).sum)
    (Q := fun defs sections =>
      countComponents sections = ((sectionsSpecs defs).map (fileCount fs c)).sum) ?_ rfl ?_ h
  · intro d s hs ih
    rw [Section.componentCount_eq, SectionDef.specs_eq, List.map_append, List.sum_append,
      entryCount_of_buildComponents (Section.exists_of_build hs).2.2.1, ih]
  · intro d s rest others hd hrest
    rw [countComponents, sectionsSpecs, List.map_append, List.sum_append, hd, hrest]

lemma rel_of_buildSections? {R : SectionDef → Section → Prop} {defs : Option (List SectionDef)}
    {sections : Option (List Section)} (h : buildSections? fs c defs = .ok sections)
    (hall : List.Forall₂ R (defs.getD []) (sections.getD [])) :
    Option.Rel (List.Forall₂ R) defs sections := by
  cases defs with
  | none =>
    cases h
    exact .none
  | some ds =>
    obtain ⟨ss, -, rfl⟩ := map_eq_ok_iff.1 h
    exact .some hall

/-- What is built for a definition mirrors it. -/
theorem mirrors_of_buildSections? {defs : Option (List SectionDef)}
    {sections : Option (List Section)} (h : buildSections? fs c defs = .ok sections) :
    Option.Rel (List.Forall₂ (Section.Mirrors fs c)) defs sections := by
  refine rel_of_buildSections? h (build_induction (P := Section.Mirrors fs c) ?_ .nil ?_ h)
  · intro d s hs ih
    obtain ⟨hname, hcontent, hcomponents, hsections⟩ := Section.exists_of_build hs
    exact .intro hname hcontent hcomponents (rel_of_buildSections? hsections ih)
  · intro d s rest others hd hrest
    exact .cons hd hrest

/-! ## Changing one specification

A place in a tree of sections is the list of the positions that lead there from the top level. -/

/-- The section with another specification at a place below it. -/
def SectionDef.setSpec (spec : Option ComponentSpec) : List Nat → SectionDef → SectionDef
  | [], d => { d with components := spec }
  | i :: below, d => { d with sections := d.sections.map (·.modify i (setSpec spec below)) }

/-- The configuration with another specification at a place. -/
def Config.setSpec (spec : Option ComponentSpec) : List Nat → Config → Config
  | [], c => { c with components := spec }
  | i :: below, c => { c with sections := c.sections.map (·.modify i (.setSpec spec below)) }

/-- The section with other components at a place below it. -/
def Section.setComponents (components : Option (List ComponentEntry)) :
    List Nat → Section → Section
  | [], s => { s with components }
  | i :: below, s =>
    { s with sections := s.sections.map (·.modify i (setComponents components below)) }

/-- The style guide with other components at a place. -/
def Tree.setComponents (components : Option (List ComponentEntry)) : List Nat → Tree → Tree
  | [], t => { t with components }
  | i :: below, t =>
    { t with sections := t.sections.map (·.modify i (.setComponents components below)) }

section Change

variable {spec : Option ComponentSpec} {components : Option (List ComponentEntry)}

lemma buildSections?_modify {defs : Option (List SectionDef)} {sections : Option (List Section)}
    {g : SectionDef → SectionDef} {h : Section → Section}
    (hdefs : buildSections? fs c defs = .ok sections)
    (hgh : ∀ d s, Section.build fs c d = .ok s → Section.build fs c (g d) = .ok (h s)) (i : Nat) :
    buildSections? fs c (defs.map (·.modify i g)) = .ok (sections.map (·.modify i h)) := by
  cases defs with
  | none =>
    cases hdefs
    rfl
  | some ds =>
    obtain ⟨ss, hss, rfl⟩ := map_eq_ok_iff.1 hdefs
    rw [buildSections_eq_mapM] at hss
    refine map_eq_ok_iff.2 ⟨ss.modify i h, ?_, rfl⟩
    rw [buildSections_eq_mapM]
    exact mapM_modify hss (fun d _ s => hgh d s) i

/-- What stands at other places of a section stays as it is. -/
lemma build_setSpec (hspec : buildComponents fs c spec = .ok components) (place : List Nat)
    {d : SectionDef} {s : Section} (h : Section.build fs c d = .ok s) :
    Section.build fs c (d.setSpec spec place) = .ok (s.setComponents components place) := by
  induction place generalizing d s with
  | nil =>
    obtain ⟨hname, hcontent, -, hsections⟩ := Section.exists_of_build h
    rw [Section.build_eq, SectionDef.setSpec, hspec, hsections, Section.setComponents, hname,
      hcontent]
    rfl
  | cons i below ih =>
    obtain ⟨hname, hcontent, hcomponents, hsections⟩ := Section.exists_of_build h
    have hmodified := buildSections?_modify hsections (fun _ _ => ih) i
    rw [Section.build_eq, SectionDef.setSpec, hcomponents, hmodified, Section.setComponents, hname,
      hcontent]
    rfl

end Change

/-! ### Around the change

The sections of a configuration have no part in what any of them becomes. -/

@[simp] lemma baseDirectory_setSpec (spec : Option ComponentSpec) (place : List Nat) :
    (c.setSpec spec place).baseDirectory fs = c.baseDirectory fs := by
  cases place <;> rfl

@[simp] lemma buildComponents_setSpec (spec : Option ComponentSpec) (place : List Nat) :
    buildComponents fs (c.setSpec spec place) = buildComponents fs c := by
  cases place <;> rfl

@[simp] lemma resolvePath_setSpec (spec : Option ComponentSpec) (place : List Nat) :
    (c.setSpec spec place).resolvePath fs = c.resolvePath fs := by
  cases place <;> rfl

/-! ### What a section depends on -/

section Congr

variable {fs' : FileSystem} {c' : Config}

/-- What sections become depends on the entries of specifications and on where paths lead. -/
theorem buildSections_congr (hcomponents : buildComponents fs c = buildComponents fs' c')
    (hpaths : c.resolvePath fs = c'.resolvePath fs') (defs : List SectionDef) :
    buildSections fs c defs = buildSections fs' c' defs := by
  refine sections_induction (P := fun d => Section.build fs c d = Section.build fs' c' d)
    (Q := fun defs => buildSections fs c defs = buildSections fs' c' defs) ?_ rfl ?_ defs
  · intro d ih
    have hsections : buildSections? fs c d.sections = buildSections? fs' c' d.sections := by
      cases hdefs : d.sections with
      | none => rfl
      | some ds =>
        rw [hdefs] at ih
        exact congrArg (Except.map some) ih
    rw [Section.build_eq, Section.build_eq, hcomponents, hpaths, hsections]
  · intro d rest hd hrest
    rw [buildSections, buildSections, hd, hrest]

lemma buildSections?_congr (hcomponents : buildComponents fs c = buildComponents fs' c')
    (hpaths : c.resolvePath fs = c'.resolvePath fs') (defs : Option (List SectionDef)) :
    buildSections? fs c defs = buildSections? fs' c' defs := by
  cases defs with
  | none => rfl
  | some defs => rw [buildSections?, buildSections?, buildSections_congr hcomponents hpaths]

end Congr

/-! ## The whole compilation -/

lemma compile_eq_ok_iff {t : Tree} :
    compile fs c = .ok t ↔
      checkBaseDirectory fs (c.baseDirectory fs) = .ok () ∧
        t.presentation = ⟨c.title, c.highlightTheme, c.showCode⟩ ∧
        buildComponents fs c c.components = .ok t.components ∧
        buildSections? fs c c.sections = .ok t.sections := by
  simp only [compile, bind_eq_ok_iff]
  constructor
  · rintro ⟨_, hbase, components, hcomponents, sections, hsections, h⟩
    cases h
    exact ⟨hbase, rfl, hcomponents, hsections⟩
  · rintro ⟨hbase, hpresentation, hcomponents, hsections⟩
    exact ⟨(), hbase, _, hcomponents, _, hsections, by rw [← hpresentation]; rfl⟩

/-- Behind the check of the base directory, the specifications are looked at in order. -/
lemma follows_compile (hbase : checkBaseDirectory fs (c.baseDirectory fs) = .ok ()) :
    Follows (filesOf fs c) c.specs (compile fs c) := by
  rw [compile, hbase]
  exact (follows_components c.components).bind fun _ _ => (follows_sections? c.sections).map _

/-- What stands at other places stays as it is. -/
lemma compile_setSpec {spec : Option ComponentSpec} {components : Option (List ComponentEntry)}
    {t : Tree} (h : compile fs c = .ok t) (hspec : buildComponents fs c spec = .ok components)
    (place : List Nat) :
    compile fs (c.setSpec spec place) = .ok (t.setComponents components place) := by
  obtain ⟨hbase, hpresentation, hcomponents, hsections⟩ := compile_eq_ok_iff.1 h
  rw [compile_eq_ok_iff, baseDirectory_setSpec, buildComponents_setSpec,
    buildSections?_congr (buildComponents_setSpec spec place) (resolvePath_setSpec spec place)]
  cases place with
  | nil => exact ⟨hbase, hpresentation, hspec, hsections⟩
  | cons i below =>
    exact ⟨hbase, hpresentation, hcomponents,
      buildSections?_modify hsections (fun _ _ => build_setSpec hspec below) i⟩

lemma mirrors_tree {t : Tree} (h : compile fs c = .ok t) : t.Mirrors fs c := by
  obtain ⟨-, hpresentation, hcomponents, hsections⟩ := compile_eq_ok_iff.1 h
  exact ⟨hpresentation, hcomponents, mirrors_of_buildSections? hsections⟩

lemma componentCount_tree {t : Tree} (h : compile fs c = .ok t) :
    t.componentCount = (c.specs.map (fileCount fs c)).sum := by
  obtain ⟨-, -, hcomponents, hsections⟩ := compile_eq_ok_iff.1 h
  rw [Tree.componentCount, Config.specs, List.map_append, List.sum_append,
    entryCount_of_buildComponents hcomponents, countComponents_of_buildSections? hsections]

/-- A configuration can be compiled exactly when its base directory is there and all its component
specifications stand for files. The style guide then mirrors the configuration, section by section,
and counts the files of all specifications; another specification for one section changes the
components of that section and nothing else. Otherwise the base directory is at fault, or the first
specification that stands for no files. -/
theorem compile_mirrors (fs : FileSystem) (c : Config) :
    ((∃ t, compile fs c = .ok t) ↔
      checkBaseDirectory fs (c.baseDirectory fs) = .ok () ∧
        ∀ spec ∈ c.specs, ∃ files, filesOf fs c spec = .ok files) ∧
    (∀ t, compile fs c = .ok t →
      t.Mirrors fs c ∧
      t.componentCount = (c.specs.map (fileCount fs c)).sum ∧
      ∀ spec components place, buildComponents fs c spec = .ok components →
        compile fs (c.setSpec spec place) = .ok (t.setComponents components place)) ∧
    (∀ e, compile fs c = .error e ↔
      checkBaseDirectory fs (c.baseDirectory fs) = .error e ∨
        checkBaseDirectory fs (c.baseDirectory fs) = .ok () ∧
          FailsFirst (filesOf fs c) c.specs e) := by
  refine ⟨?_, fun t h => ?_, fun e => ?_⟩
  · constructor
    · rintro ⟨t, h⟩
      have hbase := (compile_eq_ok_iff.1 h).1
      exact ⟨hbase, (follows_compile hbase).exists_eq_ok_iff.1 ⟨t, h⟩⟩
    · rintro ⟨hbase, hspecs⟩
      exact (follows_compile hbase).exists_eq_ok_iff.2 hspecs
  · exact ⟨mirrors_tree h, componentCount_tree h, fun _ _ place hspec =>
      compile_setSpec h hspec place⟩
  · cases hbase : checkBaseDirectory fs (c.baseDirectory fs) with
    | error e' =>
      rw [compile, hbase]
      simp [bind, Except.bind]
    | ok _ => simp [(follows_compile hbase).eq_error_iff]

end StyleGuide
