import StyleGuide.Proofs.Compilation
import StyleGuide.Proofs.Config.BaseDirectory
import StyleGuide.Proofs.Path.Canonical

/-!
# Component sets are settled

The files of a specification have been seen from the base directory, and those without examples are
left out where the configuration says so. Doing both again changes nothing, whatever the
specification and wherever its paths come from: the files can be listed in its place.

## Main definitions

* `Config.Settles`: a configuration takes a listed file as it is.

## Main results

* `Path.absolutize_absolutize`: a path is seen from a directory once.
* `filesOf_listed_eq_self_iff`: the lists of files that stand for themselves.
* `resolveComponents_listed`: the files of a specification can be listed in its place.
-/

namespace StyleGuide

/-! ## Seen from a directory twice -/

/-- What is seen from a directory that starts at the root, or that leads nowhere, stays where it
is. -/
theorem Path.absolutize_absolutize {base : Path} (h : base.isAbsolute = true ∨ base.parts = [])
    (p : Path) : base.absolutize (base.absolutize p) = base.absolutize p := by
  have hparts : (base.join (base.join p)).parts = (base.join p).parts := by
    rw [parts_join]
    split_ifs with hrelative
    · rfl
    · rcases h with habsolute | hnowhere
      · rw [isAbsolute_join_eq, habsolute] at hrelative
        exact absurd rfl hrelative
      · rw [hnowhere, List.nil_append]
  rw [absolutize_eq, absolutize_eq, normalize_join_normalize]
  exact normalize_congr hparts

variable {fs : FileSystem} {c : Config}

namespace Config

/-- The base directory starts at the root, unless there is none. -/
lemma isAbsolute_or_parts_baseDirectory (fs : FileSystem) (c : Config) :
    (c.baseDirectory fs).isAbsolute = true ∨ (c.baseDirectory fs).parts = [] := by
  by_cases h : c.baseDir.bytes = []
  · exact .inr (by rw [baseDirectory_nil h, Path.parts_nil])
  · exact .inl (isAbsolute_baseDirectory_of_ne_nil h)

/-- A listed file is taken as it is: it is where it is seen from the base directory, and it is not
left out. -/
structure Settles (fs : FileSystem) (c : Config) (f : Path) : Prop where
  absolutize : (c.baseDirectory fs).absolutize f = f
  pathExists : c.skipWithoutExample = true → fs.pathExists (c.locator f none) = true

end Config

/-! ## Files of a specification -/

lemma map_absolutize_eq_self_iff {base : Path} {files : List Path} :
    files.map base.absolutize = files ↔ ∀ f ∈ files, base.absolutize f = f := by
  have hself := List.map_inj_left (l := files) (f := base.absolutize) (g := id)
  rwa [List.map_id] at hself

/-- The lists that stand for themselves hold files that are taken as they are. -/
theorem filesOf_listed_eq_self_iff {files : List Path} :
    filesOf fs c (.listed files) = .ok files ↔ ∀ f ∈ files, c.Settles fs f := by
  have hlisted : pathsOf fs c (.listed files) = .ok files := rfl
  rw [filesOf_eq, hlisted, Except.map, Except.ok.injEq]
  constructor
  · intro h
    split_ifs at h with hskip
    · -- Where one of the files is left out, fewer are left than there are in the list.
      have hall := List.length_filter_eq_length_iff.1
        ((congrArg List.length h).trans (List.length_map (c.baseDirectory fs).absolutize).symm)
      rw [List.filter_eq_self.2 hall] at h
      rw [h] at hall
      exact fun f hf => ⟨map_absolutize_eq_self_iff.1 h f hf, fun _ => hall f hf⟩
    · exact fun f hf => ⟨map_absolutize_eq_self_iff.1 h f hf, fun hskips => absurd hskips hskip⟩
  · intro h
    simp only [map_absolutize_eq_self_iff.2 fun f hf => (h f hf).absolutize]
    split_ifs with hskip
    · exact List.filter_eq_self.2 fun f hf => (h f hf).pathExists hskip
    · rfl

/-- The files of a specification are taken as they are. -/
theorem settles_of_mem_filesOf {spec : ComponentSpec} {files : List Path}
    (h : filesOf fs c spec = .ok files) : ∀ f ∈ files, c.Settles fs f := by
  have hstays := Path.absolutize_absolutize (c.isAbsolute_or_parts_baseDirectory fs)
  intro f hf
  obtain ⟨-, -, p, -, rfl⟩ := exists_mem_pathsOf h hf
  refine ⟨hstays p, fun hskip => ?_⟩
  rw [filesOf_eq, map_eq_ok_iff] at h
  obtain ⟨paths, -, rfl⟩ := h
  rw [if_pos hskip] at hf
  exact (List.mem_filter.1 hf).2

/-- Listed in place of the specification that they were found by, files are found again: the same
ones, as often and in the same order, with the same entries. -/
theorem resolveComponents_listed {spec : ComponentSpec} {files : List Path}
    (h : resolveComponents fs c (some spec) = .ok files) :
    resolveComponents fs c (some (.listed files)) = .ok files ∧
      ∃ entries, buildComponents fs c (some spec) = .ok (some entries) ∧
        buildComponents fs c (some (.listed files)) = .ok (some entries) := by
  have hagain : resolveComponents fs c (some (.listed files)) = .ok files :=
    filesOf_listed_eq_self_iff.2 (settles_of_mem_filesOf h)
  refine ⟨hagain, files.map (.build fs c), ?_, ?_⟩
  · rw [buildComponents, h, Except.map]
  · rw [buildComponents, hagain, Except.map]

/-- Two components in a directory, one of them with examples. -/
def explainedDirectory : FileSystem where
  entries := [([Utf8.encode "a"], .directory), ([Utf8.encode "a", [0xFF]], .file []),
    ([Utf8.encode "a", Utf8.encode "e.md"], .file [])]
  current := []

/-- Paths with dots in them and one that is not UTF-8 are kept, one file twice; what is in a
directory without examples is left out. -/
theorem resolveComponents_listed_explainedDirectory :
    let c := { Config.standard with
      baseDir := .ofString "a/.", locator := .sibling "e.md", skipWithoutExample := true }
    let found : List Path := [.ofString "/a/b", ⟨Utf8.encode "/a/" ++ [0xFF]⟩, .ofString "/a/b"]
    resolveComponents explainedDirectory c (some (.listed
        [.ofString "./b/../b", ⟨[0xFF]⟩, .ofString "../a/b", .ofString "/b"])) = .ok found ∧
      resolveComponents explainedDirectory c (some (.listed found)) = .ok found := by
  intro c found
  have hfound : resolveComponents explainedDirectory c (some (.listed
      [.ofString "./b/../b", ⟨[0xFF]⟩, .ofString "../a/b", .ofString "/b"])) = .ok found := by
    decide +kernel
  exact ⟨hfound, (resolveComponents_listed hfound).1⟩

end StyleGuide
