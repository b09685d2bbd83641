import StyleGuide.Proofs.Component.Alignment
import StyleGuide.Proofs.Glob.Wildcard

/-!
# How deep a pattern reaches

The walk goes down as far as there are directories, but only a segment of the glob stands for a
component. Without `**`, choices, classes and escapes every file is therefore found as deep below
the directory to search as the glob has segments.

## Main results

* `spells_of_mem_expandPattern`: the names below the directory to search are spelled by the
  segments, one by each.
-/

namespace StyleGuide

open FileSystem Glob

section Depth

variable {fs : FileSystem} {pattern : String} {base : Path} {directory text : List Char}
  {files : List Path} {names : List Bytes}

/-- What spells a path spells its names, segment by segment. -/
lemma forall₂_spells_names (h : Spells text (joinWith Path.slash names)) (hne : names ≠ [])
    (hnames : ∀ n ∈ names, IsFileName n) : List.Forall₂ Spells (cut (· == '/') text) names := by
  have hcut := h.cut
  rwa [cut_joinWith hne fun n hn => (hnames n hn).no_slash] at hcut

/-- A pattern without `**`, choices, classes and escapes stands for files as deep below the
directory to search as its glob has segments: each segment spells the name at its own depth, so
neither `*` nor `?` reaches across a separator. -/
theorem spells_of_mem_expandPattern (hfs : fs.WellFormed)
    (hsplit : Pattern.split pattern.toList = (directory, some text)) (hsimple : IsSimple text)
    (hstars : ¬ ['*', '*'] <:+: text) (h : expandPattern fs pattern base = .ok files) :
    let root := base.absolutize ⟨Utf8.encodeChars directory⟩
    let segments := cut (· == '/') text
    ∀ p ∈ files, ∃ names, p = root.below names ∧
      p.components = root.components ++ names.map .name ∧ names.length = segments.length ∧
      List.Forall₂ Spells segments names := by
  intro root segments p hp
  obtain ⟨glob, hglob, hmem⟩ := exists_glob_of_expandPattern hfs hsplit h
  obtain ⟨names, hnames, rfl⟩ := (hmem p).1 hp
  obtain ⟨place, hplace, -⟩ := isDirectory_iff.1 hnames.start
  have hroot := bytes_ne_nil_of_target (resolve_eq_ok_iff.1 hplace)
  have hspells : Spells text (joinWith Path.slash names) := by
    obtain ⟨glob', hglob', hmatch⟩ := exists_parse_spells hsimple hstars
    rw [hglob] at hglob'
    cases hglob'
    exact (hmatch _).1 hnames.matched
  have hall := forall₂_spells_names hspells hnames.ne_nil hnames.isFileName
  exact ⟨names, rfl, Path.components_below hroot hnames.isFileName, hall.length_eq.symm, hall⟩

end Depth

/-- A file two levels below the root, and one three levels below it. -/
def twoDepths : FileSystem where
  entries := [([Utf8.encode "a"], .directory), ([Utf8.encode "a", Utf8.encode "b.t"], .file []),
    ([Utf8.encode "a", Utf8.encode "c"], .directory),
    ([Utf8.encode "a", Utf8.encode "c", Utf8.encode "d.t"], .file [])]
  current := []

/-- `?/*.t` stands for the file that is two levels below the root, and not for the deeper one. -/
theorem spells_of_mem_expandPattern_twoDepths :
    expandPattern twoDepths "?/*.t" (Path.ofString "/") = .ok [Path.ofString "/a/b.t"] ∧
      ∃ names, Path.ofString "/a/b.t" = (Path.ofString "/").below names ∧ names.length = 2 ∧
        List.Forall₂ Spells [['?'], ['*', '.', 't']] names := by
  have hfs : twoDepths.WellFormed := by
    refine ⟨?_, ?_, by simp [twoDepths]⟩
    · decide +kernel
    · decide +kernel
  have hroot : (Path.ofString "/").absolutize ⟨Utf8.encodeChars []⟩ = Path.ofString "/" := by
    decide +kernel
  have hsplit : Pattern.split "?/*.t".toList = ([], some "?/*.t".toList) := by decide +kernel
  have hcut : cut (· == '/') "?/*.t".toList = [['?'], ['*', '.', 't']] := by decide +kernel
  have hfound : expandPattern twoDepths "?/*.t" (Path.ofString "/") =
      .ok [Path.ofString "/a/b.t"] := by
    decide +kernel
  have h := spells_of_mem_expandPattern hfs hsplit (by simp [IsSimple]) (by decide) hfound
  simp only [hroot, hcut] at h
  obtain ⟨names, hbelow, -, hlength, hspells⟩ := h _ (List.mem_singleton_self _)
  exact ⟨hfound, names, hbelow, hlength, hspells⟩

end StyleGuide
