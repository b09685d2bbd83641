import StyleGuide.CommandLine.Run
import StyleGuide.Proofs.Compilation.Entries
import StyleGuide.Proofs.FileSystem.Shape

/-!
# Compiling does not read

A compilation asks of the files of components and of their documents whether they are there, and of
nothing what it holds. So it gives the same where files hold something else, and the content comes
in when references are resolved. Nor is anything written before the program has the whole text.

## Main results

* `expandPattern_of_sameShape`, `ComponentEntry.build_of_sameShape`: the parts of a compilation.
* `compile_of_sameShape`: the style guide is the same for all contents of files.
-/

namespace StyleGuide

open FileSystem

variable {fs fs' : FileSystem}

/-! ## Component files -/

lemma checkBaseDirectory_of_sameShape (h : fs.SameShape fs') (base : Path) :
    checkBaseDirectory fs base = checkBaseDirectory fs' base := by
  unfold checkBaseDirectory
  rcases h.look_eq_or_files base with heq | ⟨content, content', hfs, hfs'⟩
  · rw [heq]
  · rw [hfs, hfs']

lemma filesBelow_of_sameShape (h : fs.SameShape fs') (root : Path) (glob : Glob)
    (dotted : List Glob) : filesBelow fs root glob dotted = filesBelow fs' root glob dotted := by
  rw [filesBelow, filesBelow, h.walk]

theorem expandPattern_of_sameShape (h : fs.SameShape fs') (pattern : String) (base : Path) :
    expandPattern fs pattern base = expandPattern fs' pattern base := by
  simp only [expandPattern, checkBaseDirectory_of_sameShape h, filesBelow_of_sameShape h, h.isFile,
    h.isDirectory]

lemma baseDirectory_of_sameShape (h : fs.SameShape fs') (c : Config) :
    c.baseDirectory fs = c.baseDirectory fs' := by
  rw [Config.baseDirectory, Config.baseDirectory, currentPath, currentPath, h.current]

lemma filesOf_of_sameShape (h : fs.SameShape fs') (c : Config) (spec : ComponentSpec) :
    filesOf fs c spec = filesOf fs' c spec := by
  have hpaths : pathsOf fs c spec = pathsOf fs' c spec := by
    cases spec with
    | listed paths => rfl
    | pattern text =>
      rw [pathsOf, pathsOf, baseDirectory_of_sameShape h, expandPattern_of_sameShape h]
  simp only [filesOf_eq, hpaths, baseDirectory_of_sameShape h, h.pathExists]

/-! ## Entries -/

lemma examplesReference_of_sameShape (h : fs.SameShape fs') (document : Path) (name : String)
    (shared : Option Path) (imagePath : String) :
    examplesReference fs document name shared imagePath =
      examplesReference fs' document name shared imagePath := by
  rw [examplesReference, examplesReference, h.pathExists]

lemma sliceExists_of_sameShape (h : fs.SameShape fs') (c : Config) (file : Path) :
    sliceExists fs c file = sliceExists fs' c file := by
  rw [sliceExists, sliceExists, h.pathExists]

/-- The entry of a file does not depend on what the file holds. -/
theorem ComponentEntry.build_of_sameShape (h : fs.SameShape fs') (c : Config) (file : Path) :
    build fs c file = build fs' c file := by
  simp only [build, baseDirectory_of_sameShape h, sliceExists_of_sameShape h,
    examplesReference_of_sameShape h]

lemma buildComponents_of_sameShape (h : fs.SameShape fs') (c : Config) :
    buildComponents fs c = buildComponents fs' c := by
  funext spec
  cases spec with
  | none => rfl
  | some spec =>
    have hbuild : ComponentEntry.build fs c = ComponentEntry.build fs' c :=
      funext (ComponentEntry.build_of_sameShape h c)
    have hfiles := filesOf_of_sameShape h c spec
    unfold filesOf at hfiles
    rw [buildComponents, buildComponents, hfiles, hbuild]

/-! ## The style guide -/

lemma compile_eq_of_sameShape (h : fs.SameShape fs') (c : Config) :
    compile fs c = compile fs' c := by
  have hcomponents := buildComponents_of_sameShape h c
  have hpaths : c.resolvePath fs = c.resolvePath fs' := by
    funext p
    rw [Config.resolvePath, Config.resolvePath, baseDirectory_of_sameShape h]
  rw [compile, compile, baseDirectory_of_sameShape h, checkBaseDirectory_of_sameShape h,
    hcomponents, buildSections?_congr hcomponents hpaths]

/-- The program changes no file but to write what it has compiled. -/
lemma files_compile (fs : FileSystem) (r : CommandLine.CompileRequest) :
    (CommandLine.compile fs r).files = fs ∨
      ∃ file value, r.output = some file ∧
        CommandLine.artifact fs r.config r.resolve = .ok value ∧
        (CommandLine.compile fs r).files =
          (CommandLine.writeOutput fs file (value.pretty ++ "\n")).1 := by
  unfold CommandLine.compile
  cases hartifact : CommandLine.artifact fs r.config r.resolve with
  | error e => exact .inl rfl
  | ok value =>
    cases houtput : r.output with
    | none => exact .inl rfl
    | some file =>
      refine .inr ⟨file, value, rfl, rfl, ?_⟩
      cases hwrite : CommandLine.writeOutput fs file (value.pretty ++ "\n") with
      | mk changed written => cases written <;> simp only [hwrite]

/-- File systems that differ in the content of files alone give the same style guide, or the same
error. The program leaves all files as they are unless it is asked to write what it has compiled,
and then it starts to change them when it has all of it. -/
theorem compile_of_sameShape (h : fs.SameShape fs') (c : Config) :
    compile fs c = compile fs' c ∧
      ∀ r : CommandLine.CompileRequest,
        (CommandLine.compile fs r).files = fs ∨
          ∃ file value, r.output = some file ∧
            CommandLine.artifact fs r.config r.resolve = .ok value ∧
            (CommandLine.compile fs r).files =
              (CommandLine.writeOutput fs file (value.pretty ++ "\n")).1 :=
  ⟨compile_eq_of_sameShape h c, files_compile fs⟩

/-- A component and its examples. -/
def explained (source examples : Bytes) : FileSystem where
  entries := [([Utf8.encode "Card.js"], .file source),
    ([Utf8.encode "examples.md"], .file examples)]
  current := []

/-- A configuration with the component alone. -/
def explainedCards : Config :=
  { Config.standard with components := some (.pattern "*.js") }

/-- Whatever the two files hold, the style guide is the one that is compiled where they are
empty. -/
theorem compile_explained :
    ∃ t, ∀ source examples, compile (explained source examples) explainedCards = .ok t := by
  have hfiles : filesOf (explained [] []) explainedCards (.pattern "*.js") =
      .ok [.ofString "/Card.js"] := by
    decide +kernel
  obtain ⟨t, ht, -⟩ := exists_compile_of_specs rfl (by decide +kernel) hfiles
  refine ⟨t, fun source examples => ?_⟩
  rw [(compile_of_sameShape (sameShape_emptied (explained source examples)) explainedCards).1]
  exact ht

end StyleGuide
