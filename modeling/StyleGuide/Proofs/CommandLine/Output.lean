import StyleGuide.CommandLine.Run
import StyleGuide.Proofs.CommandLine.Request
import StyleGuide.Proofs.Compilation
import StyleGuide.Proofs.Config.BaseDirectory
import StyleGuide.Proofs.FileSystem.Growth

/-!
# Runs with an output file

A run that writes to a file writes what the same run without the option prints, and does nothing
else to the file system: all that is new besides the file are directories above it. The file system
that the style guide was compiled from is still there, but for the file itself.

The path of the output is looked up once the directories above it have been made. It can lead to a
link then that it did not lead to before, when it goes up from a directory that was missing, and
that link is followed.

## Main results

* `CommandLine.run_writesOnly`: what is left by a run that writes to a file.
* `CommandLine.run_throughLink`: a link is followed that was not there to be seen.
-/

namespace StyleGuide.CommandLine

open FileSystem (Adds WritesOnly)

variable {fs fs' : FileSystem} {file : Path} {text : String}

/-! ## Writing the output -/

/-- The directories that are made are above the file. -/
lemma adds_makeParent (fs : FileSystem) (file : Path) :
    Adds (·.IsAbove file) fs (makeParent fs file).1 := by
  unfold makeParent
  split
  · exact .refl
  next directory hparent =>
    split
    · exact .refl
    · exact FileSystem.adds_makeDirectories (fun _ _ => Path.IsAbove.parent?)
        (Path.IsAbove.of_parent? hparent)

/-- A text is written when the directories have been made and the file can be written there. -/
lemma writeOutput_eq_ok_iff :
    writeOutput fs file text = (fs', .ok ()) ↔
      (makeParent fs file).2 = .ok () ∧
        (makeParent fs file).1.write file (Utf8.encode text) = .ok fs' := by
  unfold writeOutput
  rcases makeParent fs file with ⟨grown, e | _⟩
  · simp
  · cases hwrite : grown.write file (Utf8.encode text) <;> simp [hwrite]

lemma exists_writesOnly_of_writeOutput (h : writeOutput fs file text = (fs', .ok ())) :
    ∃ place, WritesOnly fs fs' file (Utf8.encode text) place ∧
      (¬ (makeParent fs file).1.IsLink file → fs'.target false file = .ok (.found place)) :=
  (adds_makeParent fs file).exists_writesOnly (writeOutput_eq_ok_iff.1 h).2

/-- What a compilation would print is what it writes. -/
lemma compile_eq_of_exitCode {r : CompileRequest} (houtput : r.output = some file)
    (h : (compile fs r).exitCode = 0) :
    ∃ text, compile fs { r with output := none } = ⟨0, text, none, fs⟩ ∧
      ∃ fs', writeOutput fs file text = (fs', .ok ()) ∧ compile fs r = ⟨0, "", none, fs'⟩ := by
  unfold compile at h ⊢
  cases hvalue : artifact fs r.config r.resolve with
  | error e => simp [hvalue] at h
  | ok value =>
    simp only [hvalue, houtput] at h ⊢
    refine ⟨_, rfl, ?_⟩
    cases hwrite : writeOutput fs file (value.pretty ++ "\n") with
    | mk fs' result =>
      cases result with
      | error e => simp [hwrite] at h
      | ok => exact ⟨fs', rfl, rfl⟩

/-! ## The whole run -/

/-- A run that succeeds has arguments that can be read. -/
lemma isValue_of_exitCode {config output : Option String} {resolve : Bool}
    (h : (run fs (arguments config output resolve)).exitCode = 0) :
    (∀ c ∈ config, IsValue c) ∧ ∀ f ∈ output, IsValue f := by
  by_contra hrefused
  obtain ⟨e, he⟩ := exists_ofArguments_eq_error resolve
    (by simpa only [not_and_or, not_forall, exists_prop] using hrefused)
  simp [run, he] at h

/-- Where a run with an output file succeeds, the run without one succeeds too. What the latter
prints is the whole content of the file, which stands where its path leads; but for it and for
directories above it, which were missing, the file system is the same, whatever the run has read.
The path itself is that of the file, unless it leads to a link once the directories are there. -/
theorem run_writesOnly {config : Option String} {output : String} {resolve : Bool}
    (h : (run fs (arguments config (some output) resolve)).exitCode = 0) :
    (run fs (arguments config none resolve)).exitCode = 0 ∧
    (run fs (arguments config (some output) resolve)).output = "" ∧
    ∃ place,
      WritesOnly fs (run fs (arguments config (some output) resolve)).files (.ofString output)
        (Utf8.encode (run fs (arguments config none resolve)).output) place ∧
      (¬ (makeParent fs (.ofString output)).1.IsLink (.ofString output) →
        (run fs (arguments config (some output) resolve)).files.target false (.ofString output) =
          .ok (.found place)) := by
  obtain ⟨hconfig, houtput⟩ := isValue_of_exitCode h
  have hwith : run fs (arguments config (some output) resolve) =
      compile fs (requestFor config (some output) resolve) := by
    rw [run, ofArguments_arguments resolve hconfig houtput]
  have hwithout : run fs (arguments config none resolve) =
      compile fs (requestFor config none resolve) := by
    rw [run, ofArguments_arguments resolve hconfig (by simp)]
  rw [hwith] at h
  obtain ⟨text, hprints, fs', hwrite, hwrites⟩ := compile_eq_of_exitCode rfl h
  rw [hwith, hwithout, hwrites, show compile fs (requestFor config none resolve) = _ from hprints]
  exact ⟨rfl, rfl, exists_writesOnly_of_writeOutput hwrite⟩

/-! ### A link beside the configuration -/

/-- What a configuration file says about nothing but the title. -/
def titleText : String := "title = \"Acme\"\n"

/-- A configuration file in the root, beside another file and a link to it. -/
def linkedProject : FileSystem where
  entries := [([Utf8.encode "styleguide.toml"], .file (Utf8.encode titleText)),
    ([Utf8.encode "other.txt"], .file (Utf8.encode "keep")),
    ([Utf8.encode "l"], .link (.ofString "other.txt"))]
  current := []

/-- In a directory that has to be made, the output is written and nothing else is changed. -/
theorem run_writesOnly_linkedProject : ∃ place,
    WritesOnly linkedProject (run linkedProject (arguments none (some "out/tree.json") false)).files
      (.ofString "out/tree.json")
      (Utf8.encode (run linkedProject (arguments none none false)).output) place ∧
    (run linkedProject (arguments none (some "out/tree.json") false)).files.target false
      (.ofString "out/tree.json") = .ok (.found place) := by
  have hexit : (run linkedProject (arguments none (some "out/tree.json") false)).exitCode = 0 := by
    decide +kernel
  obtain ⟨-, -, place, hwrites, htarget⟩ := run_writesOnly hexit
  have hvacant : (makeParent linkedProject (.ofString "out/tree.json")).1.target false
      (.ofString "out/tree.json") =
        .ok (.vacant [Utf8.encode "out", Utf8.encode "tree.json"]) := by
    decide +kernel
  refine ⟨place, hwrites, htarget ?_⟩
  rintro ⟨q, target, hq, -⟩
  rw [hvacant] at hq
  cases hq

/-- The path goes up from a directory that is missing, so it leads nowhere. Once the directory is
there it leads to the link, and the other file is written over. -/
theorem run_throughLink :
    linkedProject.target false (.ofString "a/../l") = .error .notFound ∧
    (run linkedProject (arguments none none false)).exitCode = 0 ∧
    (run linkedProject (arguments none (some "a/../l") false)).exitCode = 0 ∧
    (run linkedProject (arguments none (some "a/../l") false)).files.target false
      (.ofString "a/../l") = .ok (.found [Utf8.encode "l"]) ∧
    linkedProject.entry? [Utf8.encode "other.txt"] = some (.file (Utf8.encode "keep")) ∧
    (run linkedProject (arguments none (some "a/../l") false)).files.entry?
      [Utf8.encode "other.txt"] ≠ some (.file (Utf8.encode "keep")) := by
  refine ⟨?_, ?_, ?_, ?_, ?_, ?_⟩ <;> decide +kernel

end StyleGuide.CommandLine
