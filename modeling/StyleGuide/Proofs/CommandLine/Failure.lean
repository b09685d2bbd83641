import StyleGuide.CommandLine.Run
import StyleGuide.Proofs.CommandLine.Request
import StyleGuide.Proofs.Compilation
import StyleGuide.Proofs.Config.BaseDirectory
import StyleGuide.Proofs.Resolution.Twice

/-!
# Runs that fail

A run in which the configuration cannot be loaded, compiled or resolved leaves nothing behind: it
prints nothing, and the file system stays as it is, the output file and the directories above it
included. It does not matter how deep in the style guide the reason lies.

## Main definitions

* `CommandLine.Fails`: why there is nothing to print.

## Main results

* `CommandLine.exists_fails_iff`: the configuration, its base directory, one of its specifications
  or one of the references in the style guide is at fault.
* `CommandLine.run_of_fails`: what such a run does.
-/

namespace StyleGuide.CommandLine

/-- There is no value that the configuration file is compiled to, for the given reason. -/
inductive Fails (fs : FileSystem) (config : Path) (resolve : Bool) : Failure → Prop where
  /-- The file cannot be read, or it cannot be parsed. -/
  | load {cause : ConfigError} (h : Config.load fs config = .error cause) :
      Fails fs config resolve (.load config cause)
  | compile {c : Config} {cause : CompileError} (hload : Config.load fs config = .ok c)
      (h : StyleGuide.compile fs c = .error cause) : Fails fs config resolve (.compile cause)
  /-- What the style guide refers to is asked for, and some of it cannot be put in. -/
  | resolve {c : Config} {t : Tree} {cause : ResolveError} (hload : Config.load fs config = .ok c)
      (htree : StyleGuide.compile fs c = .ok t) (hresolve : resolve = true)
      (h : registry.resolve fs t.toJson = .error cause) : Fails fs config resolve (.resolve cause)

variable {fs : FileSystem} {file : Path} {resolve : Bool} {e : Failure}

/-! ## Where the reason lies -/

lemma artifact_eq_error_iff : artifact fs file resolve = .error e ↔ Fails fs file resolve e := by
  simp only [artifact, bind_eq_error_iff, mapError_eq_error_iff, mapError_eq_ok_iff]
  constructor
  · rintro (⟨cause, h, rfl⟩ | ⟨c, hload, ⟨cause, h, rfl⟩ | ⟨t, htree, h⟩⟩)
    · exact .load h
    · exact .compile hload h
    · cases hresolve : resolve with
      | false =>
        rw [hresolve] at h
        cases h
      | true =>
        rw [hresolve, if_pos rfl] at h
        obtain ⟨cause, hcause, rfl⟩ := mapError_eq_error_iff.1 h
        exact .resolve hload htree rfl hcause
  · rintro (h | ⟨hload, h⟩ | ⟨hload, htree, rfl, h⟩)
    · exact .inl ⟨_, h, rfl⟩
    · exact .inr ⟨_, hload, .inl ⟨_, h, rfl⟩⟩
    · exact .inr ⟨_, hload, .inr ⟨_, htree, mapError_eq_error_iff.2 ⟨_, h, rfl⟩⟩⟩

/-- A style guide cannot be resolved when one of its references cannot. -/
lemma exists_resolve_eq_error_iff {t : Tree} :
    (∃ cause, registry.resolve fs t.toJson = .error cause) ↔
      ∃ r ∈ t.references, ∃ cause, registry.resolve fs r.handle = .error cause := by
  obtain ⟨value, -, htree⟩ := Tree.exists_resolve_eq registry fs t
  simp only [htree, map_eq_error_iff, exists_mapM_eq_error_iff]

/-- A configuration cannot be compiled when its base directory is at fault, or a specification of
some section. -/
lemma exists_compile_eq_error_iff {c : Config} :
    (∃ cause, StyleGuide.compile fs c = .error cause) ↔
      (∃ cause, checkBaseDirectory fs (c.baseDirectory fs) = .error cause) ∨
        ∃ spec ∈ c.specs, ∃ cause, filesOf fs c spec = .error cause := by
  cases hbase : checkBaseDirectory fs (c.baseDirectory fs) with
  | error cause =>
    refine iff_of_true ⟨cause, ?_⟩ (.inl ⟨cause, rfl⟩)
    rw [StyleGuide.compile, hbase]
    rfl
  | ok =>
    simp only [(follows_compile hbase).eq_error_iff, ← mapM_eq_error_iff, exists_mapM_eq_error_iff,
      reduceCtorEq, exists_false, false_or]

/-- The reason lies in the configuration file, in the base directory, in a specification at any
depth of the configuration, or in a reference at any depth of the style guide. -/
theorem exists_fails_iff :
    (∃ e, Fails fs file resolve e) ↔
      (∃ cause, Config.load fs file = .error cause) ∨
      ∃ c, Config.load fs file = .ok c ∧
        ((∃ cause, checkBaseDirectory fs (c.baseDirectory fs) = .error cause) ∨
          (∃ spec ∈ c.specs, ∃ cause, filesOf fs c spec = .error cause) ∨
          resolve = true ∧ ∃ t, StyleGuide.compile fs c = .ok t ∧
            ∃ r ∈ t.references, ∃ cause, registry.resolve fs r.handle = .error cause) := by
  simp only [← or_assoc, ← exists_compile_eq_error_iff, ← exists_resolve_eq_error_iff]
  constructor
  · rintro ⟨_, h | ⟨hload, h⟩ | ⟨hload, htree, hresolve, h⟩⟩
    · exact .inl ⟨_, h⟩
    · exact .inr ⟨_, hload, .inl ⟨_, h⟩⟩
    · exact .inr ⟨_, hload, .inr ⟨hresolve, _, htree, _, h⟩⟩
  · rintro (⟨cause, h⟩ | ⟨c, hload, ⟨cause, h⟩ | ⟨hresolve, t, htree, cause, h⟩⟩)
    · exact ⟨_, .load h⟩
    · exact ⟨_, .compile hload h⟩
    · exact ⟨_, .resolve hload htree hresolve h⟩

/-! ## What is left behind -/

lemma compile_of_fails {r : CompileRequest} (h : Fails fs r.config r.resolve e) :
    compile fs r = ⟨1, "", some e.message, fs⟩ := by
  rw [compile, artifact_eq_error_iff.2 h]

lemma exitCode_compile_eq_zero {r : CompileRequest} (h : ∀ e, ¬ Fails fs r.config r.resolve e)
    (houtput : r.output = none) : (compile fs r).exitCode = 0 := by
  cases hvalue : artifact fs r.config r.resolve with
  | error e => exact absurd (artifact_eq_error_iff.1 hvalue) (h e)
  | ok value => simp [compile, hvalue, houtput]

/-- A run that fails before there is anything to print does nothing but fail: it prints nothing and
changes no file, wherever the output was to go. Without such a failure, a run that prints succeeds.
Where the arguments cannot be read, the run does not get that far, and does nothing either. -/
theorem run_of_fails (fs : FileSystem) (config output : Option String) (resolve : Bool) :
    ((∀ c ∈ config, IsValue c) → (∀ f ∈ output, IsValue f) →
      (∀ e, Fails fs (.ofString (config.getD defaultConfig)) resolve e →
        run fs (arguments config output resolve) = ⟨1, "", some e.message, fs⟩) ∧
      ((∀ e, ¬ Fails fs (.ofString (config.getD defaultConfig)) resolve e) →
        (run fs (arguments config none resolve)).exitCode = 0)) ∧
    ((∃ c ∈ config, ¬ IsValue c) ∨ (∃ f ∈ output, ¬ IsValue f) →
      run fs (arguments config output resolve) = ⟨2, "", none, fs⟩) := by
  refine ⟨fun hconfig houtput => ⟨fun e h => ?_, fun h => ?_⟩, fun hrefused => ?_⟩
  · rw [run, ofArguments_arguments resolve hconfig houtput]
    exact compile_of_fails h
  · rw [run, ofArguments_arguments resolve hconfig (by simp)]
    exact exitCode_compile_eq_zero h rfl
  · obtain ⟨cause, hcause⟩ := exists_ofArguments_eq_error resolve hrefused
    rw [run, hcause]

/-! ### A section without its document -/

/-- What a configuration file says about a section that shows a document. -/
def guideText : String := "[[sections]]\nname = \"Guide\"\ncontent = \"guide.md\"\n"

/-- A configuration file in the root, without the document of the section. -/
def missingGuide : FileSystem where
  entries := [([Utf8.encode "styleguide.toml"], .file (Utf8.encode guideText))]
  current := []

lemma fails_missingGuide :
    ∃ e, Fails missingGuide (.ofString "styleguide.toml") true e ∧
      e.message = "Failed to resolve documentation tree" := by
  have hmessage : ((artifact missingGuide (.ofString "styleguide.toml") true).map
      fun _ => ()).mapError Failure.message =
        .error "Failed to resolve documentation tree" := by
    decide +kernel
  obtain ⟨e, he, hmessage⟩ := mapError_eq_error_iff.1 hmessage
  exact ⟨e, artifact_eq_error_iff.1 (map_eq_error_iff.1 he), hmessage⟩

/-- The document is missed when everything else has been done. Nothing is left behind, though the
output was to go to a directory that would have had to be made. -/
theorem run_missingGuide :
    run missingGuide (arguments none (some "out/guide.json") true) =
      ⟨1, "", some "Failed to resolve documentation tree", missingGuide⟩ := by
  obtain ⟨e, h, hmessage⟩ := fails_missingGuide
  have hrun := run_of_fails missingGuide none (some "out/guide.json") true
  rw [(hrun.1 (by simp) (by decide)).1 e h, hmessage]

end StyleGuide.CommandLine
