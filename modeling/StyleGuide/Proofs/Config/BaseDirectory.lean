import StyleGuide.Config.File
import StyleGuide.Proofs.Component.Expansion
import StyleGuide.Proofs.Path.Normal
import StyleGuide.Tree

/-!
# The base directory of a configuration file

The base directory is written as it is seen from the directory of the file, and both together are
seen from the current directory. Reading the file folds the first two, and what is left is seen from
the current directory later on. That comes to the same unless nothing is left, for an empty path is
not seen from anywhere.

## Main definitions

* `Config.writtenBase`: the base directory as a file asks for it, seen from the current directory.
* `Config.expectedBase`: the absolute path that it leads to.

## Main results

* `Config.baseDirectory_of_load`: the base directory of a loaded configuration is the expected one,
  unless the written one folds to nothing; then there is none.
-/

namespace StyleGuide.Config

/-- The base directory that a file asks for, as it is seen from the current directory. Without a
written one it is the directory of the file. -/
def writtenBase (file : Path) (written : Option String) : Path :=
  (file.parent?.getD ⟨[]⟩).join (written.elim ⟨[]⟩ .ofString)

/-- The absolute normal path of the base directory that a file asks for. -/
def expectedBase (fs : FileSystem) (file : Path) (written : Option String) : Path :=
  (fs.currentPath.join (writtenBase file written)).normalize

variable {fs : FileSystem}

/-! ## Seen from the current directory -/

lemma isAbsolute_currentPath (fs : FileSystem) : fs.currentPath.isAbsolute = true := by
  have hfoldl : ∀ (names : List Bytes) (p : Path), p.isAbsolute = true →
      ((names.map Path.Component.name).foldl (fun p c => p.join ⟨c.bytes⟩) p).isAbsolute =
        true := by
    intro names
    induction names with
    | nil => exact fun _ h => h
    | cons n names ih => exact fun p h => ih _ (by simp [Path.isAbsolute_join_eq, h])
  exact hfoldl fs.current _ rfl

lemma baseDirectory_eq {c : Config} (h : c.baseDir.bytes ≠ []) :
    c.baseDirectory fs = (fs.currentPath.join c.baseDir).normalize := by
  rw [baseDirectory, if_neg h, Path.absolutize_eq]

/-- Only an empty base directory does not start at the root. -/
lemma isAbsolute_baseDirectory_of_ne_nil {c : Config} (h : c.baseDir.bytes ≠ []) :
    (c.baseDirectory fs).isAbsolute = true := by
  rw [baseDirectory_eq h, Path.isAbsolute_normalize, Path.isAbsolute_join_eq,
    isAbsolute_currentPath, Bool.true_or]

/-- The base directory is a normal path, even where it is lost. -/
theorem normalize_baseDirectory (fs : FileSystem) (c : Config) :
    (c.baseDirectory fs).normalize = c.baseDirectory fs := by
  by_cases h : c.baseDir.bytes = []
  · have hnil : c.baseDir = ⟨[]⟩ := congrArg Path.mk h
    rw [baseDirectory, if_pos h, hnil]
    rfl
  · rw [baseDirectory_eq h, Path.normalize_normalize]

/-! ## What a file says -/

/-- A file in the current directory is seen from `.`, which leads nowhere else. -/
lemma parts_directoryOf (file : Path) :
    (directoryOf file).parts = (file.parent?.getD ⟨[]⟩).parts := by
  unfold directoryOf
  cases file.parent? with
  | none => rfl
  | some d =>
    obtain ⟨bytes⟩ := d
    by_cases h : bytes = []
    · subst h
      rfl
    · simp [h]

lemma bytes_directoryOf_ne_nil (file : Path) : (directoryOf file).bytes ≠ [] := by
  unfold directoryOf
  split
  · split
    · decide
    · assumption
  · decide

lemma baseDir_of_ofFields {directory : Path} {fields : List (String × Toml)} {c : Config}
    {written : Option String} (h : ofFields directory fields = some c)
    (hwritten : textField "base_dir" fields = some written) :
    c.baseDir = written.elim directory fun d => directory.absolutize (.ofString d) := by
  rw [ofFields, hwritten] at h
  simp only [Option.bind_eq_bind, Option.bind_eq_some_iff, Option.some.injEq, exists_eq_left'] at h
  obtain ⟨_, -, _, -, _, -, _, -, _, -, _, -, _, -, _, -, _, -, h⟩ := h
  cases h
  cases written <;> rfl

/-- A file that can be read and parsed is loaded where its fields stand for a configuration. -/
lemma load_eq_ok_iff {file : Path} {text : String} {fields : List (String × Toml)} {c : Config}
    (hread : fs.readText file = .ok text) (hparse : Toml.parse? text = some fields) :
    load fs file = .ok c ↔ ofFields (directoryOf file) fields = some c := by
  simp only [load, hread, ofToml, hparse, Option.bind_some]
  split <;> simp_all

lemma exists_ofFields_of_load {file : Path} {text : String} {fields : List (String × Toml)}
    {c : Config} (hread : fs.readText file = .ok text) (hparse : Toml.parse? text = some fields)
    (h : load fs file = .ok c) : ofFields (directoryOf file) fields = some c :=
  (load_eq_ok_iff hread hparse).1 h

section Written

variable {file : Path} {written : Option String} {c : Config}

/-- What is kept of a written base directory leads to the same place as what is written. -/
lemma normalize_join_baseDir (h : c.baseDir = written.elim (directoryOf file)
      fun d => (directoryOf file).absolutize (.ofString d)) :
    (fs.currentPath.join c.baseDir).normalize = expectedBase fs file written := by
  have hparts := parts_directoryOf file
  rw [h, expectedBase, writtenBase]
  cases written with
  | none =>
    refine Path.normalize_congr (Path.parts_join_congr rfl ?_)
    rw [Option.elim_none, Option.elim_none, Path.parts_join_nil, hparts]
  | some d =>
    simp only [Option.elim_some, Path.absolutize_eq, Path.normalize_join_normalize]
    exact Path.normalize_congr (Path.parts_join_congr rfl (Path.parts_join_congr hparts rfl))

/-- Only a base directory that is written can fold to nothing. -/
lemma bytes_baseDir_eq_nil_iff (h : c.baseDir = written.elim (directoryOf file)
      fun d => (directoryOf file).absolutize (.ofString d)) :
    c.baseDir.bytes = [] ↔ written.isSome = true ∧ (writtenBase file written).normalize = ⟨[]⟩ := by
  rw [h, writtenBase]
  cases written with
  | none => simpa using bytes_directoryOf_ne_nil file
  | some d =>
    have hfold : (directoryOf file).absolutize (.ofString d) =
        ((file.parent?.getD ⟨[]⟩).join (.ofString d)).normalize := by
      rw [Path.absolutize_eq]
      exact Path.normalize_congr (Path.parts_join_congr (parts_directoryOf file) rfl)
    simp only [Option.elim_some, hfold, Option.isSome_some, true_and]
    exact ⟨congrArg Path.mk, congrArg Path.bytes⟩

end Written

/-- There is nothing at the empty path. -/
lemma checkBaseDirectory_nil (fs : FileSystem) :
    checkBaseDirectory fs ⟨[]⟩ = .error (.baseDirectory ⟨[]⟩ .notFound) := rfl

lemma baseDirectory_nil {c : Config} (h : c.baseDir.bytes = []) : c.baseDirectory fs = ⟨[]⟩ := by
  rw [baseDirectory, if_pos h, ← h]

lemma compile_nil {c : Config} (h : c.baseDirectory fs = ⟨[]⟩) :
    compile fs c = .error (.baseDirectory ⟨[]⟩ .notFound) := by
  rw [compile, h, checkBaseDirectory_nil]
  rfl

/-- The base directory of a loaded configuration is the absolute path that the file asks for, so it
is found where that directory exists. The exception is a written base directory that leads from the
directory of the file back to the current one: it folds to nothing, and then the base directory is
empty and nothing can be compiled. -/
theorem baseDirectory_of_load {file : Path} {text : String} {fields : List (String × Toml)}
    {written : Option String} {c : Config} (hread : fs.readText file = .ok text)
    (hparse : Toml.parse? text = some fields)
    (hwritten : textField "base_dir" fields = some written) (hload : load fs file = .ok c) :
    (¬ (written.isSome = true ∧ (writtenBase file written).normalize = ⟨[]⟩) →
      c.baseDirectory fs = expectedBase fs file written ∧
      (c.baseDirectory fs).isAbsolute = true ∧
      (checkBaseDirectory fs (c.baseDirectory fs) = .ok () ↔
        fs.isDirectory (expectedBase fs file written) = true)) ∧
    (written.isSome = true ∧ (writtenBase file written).normalize = ⟨[]⟩ →
      c.baseDirectory fs = ⟨[]⟩ ∧
      compile fs c = .error (.baseDirectory ⟨[]⟩ .notFound)) := by
  have hbase := baseDir_of_ofFields (exists_ofFields_of_load hread hparse hload) hwritten
  refine ⟨fun hkept => ?_, fun hlost => ?_⟩
  · have hne : c.baseDir.bytes ≠ [] := fun h => hkept ((bytes_baseDir_eq_nil_iff hbase).1 h)
    have heq : c.baseDirectory fs = expectedBase fs file written := by
      rw [baseDirectory_eq hne, normalize_join_baseDir hbase]
    refine ⟨heq, ?_, by rw [heq, checkBaseDirectory_eq_ok_iff]⟩
    rw [heq, expectedBase, Path.isAbsolute_normalize, Path.isAbsolute_join_eq,
      isAbsolute_currentPath, Bool.true_or]
  · have heq : c.baseDirectory fs = ⟨[]⟩ :=
      baseDirectory_nil ((bytes_baseDir_eq_nil_iff hbase).2 hlost)
    exact ⟨heq, compile_nil heq⟩

/-- A directory that holds a configuration file, and from which the program runs. -/
def projectWith (text : String) : FileSystem where
  entries := [([Utf8.encode "work"], .directory),
    ([Utf8.encode "work", Utf8.encode "styleguide.toml"], .file (Utf8.encode text))]
  current := [Utf8.encode "work"]

/-- The directory above the one of the file is found from there. -/
theorem baseDirectory_of_load_parent :
    ∃ c, load (projectWith "base_dir = \"..\"") (.ofString "styleguide.toml") = .ok c ∧
      c.baseDirectory (projectWith "base_dir = \"..\"") = .ofString "/" := by
  have hread : (projectWith "base_dir = \"..\"").readText (.ofString "styleguide.toml") =
      .ok "base_dir = \"..\"" := by decide +kernel
  obtain ⟨fields, hparse, hwritten⟩ : ∃ fields, Toml.parse? "base_dir = \"..\"" = some fields ∧
      textField "base_dir" fields = some (some "..") :=
    Option.bind_eq_some_iff.1 (by decide +kernel)
  have hkept : ¬ ((some "..").isSome = true ∧
      (writtenBase (.ofString "styleguide.toml") (some "..")).normalize = ⟨[]⟩) := by decide +kernel
  have hbase : (load (projectWith "base_dir = \"..\"") (.ofString "styleguide.toml")).map
      (·.baseDirectory (projectWith "base_dir = \"..\"")) = .ok (.ofString "/") := by decide +kernel
  obtain ⟨c, hload, -⟩ := map_eq_ok_iff.1 hbase
  refine ⟨c, hload, ?_⟩
  rw [((baseDirectory_of_load hread hparse hwritten hload).1 hkept).1]
  decide +kernel

/-- The directory of the file itself, written as `.`, is not: the configuration is read, but nothing
can be compiled with it. -/
theorem baseDirectory_lost :
    ∃ c, load (projectWith "base_dir = \".\"") (.ofString "styleguide.toml") = .ok c ∧
      (projectWith "base_dir = \".\"").isDirectory
        (expectedBase (projectWith "base_dir = \".\"") (.ofString "styleguide.toml") (some ".")) =
          true ∧
      (c.baseDirectory (projectWith "base_dir = \".\"")).isAbsolute = false ∧
      compile (projectWith "base_dir = \".\"") c = .error (.baseDirectory ⟨[]⟩ .notFound) := by
  have hbase : (load (projectWith "base_dir = \".\"") (.ofString "styleguide.toml")).map
      (·.baseDir) = .ok ⟨[]⟩ := by decide +kernel
  obtain ⟨c, hload, hempty⟩ := map_eq_ok_iff.1 hbase
  have heq : c.baseDirectory (projectWith "base_dir = \".\"") = ⟨[]⟩ :=
    baseDirectory_nil (by rw [hempty])
  exact ⟨c, hload, by decide +kernel, by rw [heq]; rfl, compile_nil heq⟩

end StyleGuide.Config
