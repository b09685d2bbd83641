import Mathlib.Tactic.Common
import StyleGuide.Proofs.Component.Alignment
import StyleGuide.Proofs.Component.Split

/-!
# Patterns that start at the root

A pattern that starts with a separator names a directory by its plain segments, and then it does not
matter which base directory it is read from. Where the first segment holds a wildcard there is no
plain segment to start from, and the pattern is read from the base directory like one without the
separator.

## Main results

* `expandPattern_congr_base`: an absolute directory to search is the same for all base directories.
* `resolveComponents_of_slash`: what patterns that start with a separator stand for.
-/

namespace StyleGuide

open FileSystem

variable {fs : FileSystem} {pattern : String} {base : Path} {files : List Path}
  {text : List Char}

/-! ## Base directories -/

/-- The base directory does not matter where the directory to search is written from the root. -/
theorem expandPattern_congr_base (pattern : String) {base' : Path}
    (hbase : fs.isDirectory base = true) (hbase' : fs.isDirectory base' = true)
    (habsolute : (⟨Utf8.encodeChars (Pattern.split pattern.toList).1⟩ : Path).isAbsolute = true) :
    expandPattern fs pattern base = expandPattern fs pattern base' := by
  have hroot : base.absolutize ⟨Utf8.encodeChars (Pattern.split pattern.toList).1⟩ =
      base'.absolutize ⟨Utf8.encodeChars (Pattern.split pattern.toList).1⟩ := by
    rw [Path.absolutize, Path.absolutize, if_pos habsolute, if_pos habsolute]
  simp only [expandPattern, checkBaseDirectory_eq_ok_iff.2 hbase,
    checkBaseDirectory_eq_ok_iff.2 hbase', hroot]

lemma isAbsolute_foldl_join {root : Path} (hroot : root.isAbsolute = true) (names : List Bytes) :
    (names.foldl (fun p n => p.join ⟨n⟩) root).isAbsolute = true := by
  induction names generalizing root with
  | nil => exact hroot
  | cons n names ih => exact ih (by rw [Path.isAbsolute_join_eq, hroot, Bool.true_or])

/-- Below an absolute directory all files are absolute. -/
lemma isAbsolute_of_mem_expandPattern
    (habsolute : (⟨Utf8.encodeChars (Pattern.split pattern.toList).1⟩ : Path).isAbsolute = true)
    (h : expandPattern fs pattern base = .ok files) : ∀ f ∈ files, f.isAbsolute = true := by
  have hroot : (base.absolutize
      ⟨Utf8.encodeChars (Pattern.split pattern.toList).1⟩).isAbsolute = true := by
    rw [Path.absolutize, if_pos habsolute, Path.isAbsolute_normalize, habsolute]
  cases hblank : allBlank pattern.toList with
  | true =>
    simp only [expandPattern, hblank] at h
    cases h
    simp
  | false =>
    have hbase := isDirectory_of_expandPattern hblank h
    rcases hsplit : Pattern.split pattern.toList with ⟨directory, _ | text⟩
    · rw [hsplit] at hroot
      rw [expandPattern_eq_of_none hblank hbase hsplit] at h
      cases h
      intro f hf
      split at hf
      · rwa [List.mem_singleton.1 hf]
      · cases hf
    · rw [hsplit] at hroot
      obtain ⟨glob, dotted, hglob, hdotted⟩ := exists_globs_of_expandPattern hsplit h
      rw [expandPattern_eq hbase hsplit hglob hdotted] at h
      split at h
      · unfold filesBelow at h
        split at h
        · cases h
        · cases h
          intro f hf
          obtain ⟨names, -, rfl⟩ := List.mem_map.1 hf
          exact isAbsolute_foldl_join hroot names
      · cases h
        simp

/-- With a directory to search that is written from the root, a pattern stands for the same files
whichever base directory a configuration has. -/
lemma resolveComponents_congr_base {c : Config} {b b' : Path}
    (hb : fs.isDirectory ({ c with baseDir := b }.baseDirectory fs) = true)
    (hb' : fs.isDirectory ({ c with baseDir := b' }.baseDirectory fs) = true)
    (habsolute : (⟨Utf8.encodeChars (Pattern.split pattern.toList).1⟩ : Path).isAbsolute = true) :
    resolveComponents fs { c with baseDir := b } (some (.pattern pattern)) =
      resolveComponents fs { c with baseDir := b' } (some (.pattern pattern)) := by
  have hexpand := expandPattern_congr_base pattern hb hb' habsolute
  unfold resolveComponents
  simp only
  rw [hexpand]
  cases hfiles : expandPattern fs pattern ({ c with baseDir := b' }.baseDirectory fs) with
  | error e => rfl
  | ok files =>
    have hnormal : ∀ base : Path, files.map base.absolutize = files.map Path.normalize := by
      intro base
      refine List.map_congr_left fun f hf => ?_
      rw [Path.absolutize, if_pos (isAbsolute_of_mem_expandPattern habsolute hfiles f hf)]
    simp only [bind, Except.bind, hnormal]

/-! ## The directory that a pattern names -/

namespace Pattern

lemma segments_slash (text : List Char) :
    literalSegments ('/' :: text) = [] :: literalSegments text ∧
      globSegments ('/' :: text) = globSegments text :=
  segments_append text (List.forall_mem_nil _)

/-- A first segment without a wildcard makes the directory to search start at the root. -/
lemma isAbsolute_split (h : ∀ c ∈ text.takeWhile (· != '/'), isWildcard c = false) :
    (⟨Utf8.encodeChars (split ('/' :: text)).1⟩ : Path).isAbsolute = true := by
  obtain ⟨rest, hcut⟩ := exists_cut_eq (· == '/') text
  have hfirst : isLiteral (text.takeWhile (!(· == '/') ·)) = true := by
    rw [isLiteral, List.all_eq_true]
    intro c hc
    rw [h c hc]
    rfl
  have hliteral : literalSegments text =
      text.takeWhile (!(· == '/') ·) :: rest.takeWhile isLiteral := by
    rw [literalSegments, hcut, List.takeWhile_cons_of_pos hfirst]
  have hslash : String.utf8EncodeChar '/' = [Path.slash] := rfl
  rw [split_eq, (segments_slash text).1, hliteral, joinWith, List.nil_append]
  simp [Path.isAbsolute, Utf8.encodeChars, hslash]

/-- A first segment with a wildcard leaves no directory to search. -/
lemma split_slash (h : ∃ c ∈ text.takeWhile (· != '/'), isWildcard c = true) :
    split ('/' :: text) = ([], some text) ∧ split text = ([], some text) := by
  obtain ⟨c, hc, hwild⟩ := h
  obtain ⟨rest, hcut⟩ := exists_cut_eq (· == '/') text
  have hfirst : isLiteral (text.takeWhile (!(· == '/') ·)) = false := by
    rw [isLiteral, List.all_eq_false]
    exact ⟨c, hc, by simp [hwild]⟩
  have hliteral : literalSegments text = [] := by
    rw [literalSegments, hcut, List.takeWhile_cons_of_neg (by simp [hfirst])]
  have hglob : globSegments text = cut (· == '/') text := by
    simpa [hliteral] using literalSegments_append_globSegments text
  rw [split_eq, split_eq, (segments_slash text).1, (segments_slash text).2, hliteral, hglob,
    if_neg (cut_ne_nil _ _), joinWith_cut]
  exact ⟨rfl, rfl⟩

end Pattern

/-! ## Patterns that start with a separator -/

/-- What is found depends on the two parts of a pattern only. -/
lemma expandPattern_congr_split {other : String} {directory glob : List Char}
    (hpattern : Pattern.split pattern.toList = (directory, some glob))
    (hother : Pattern.split other.toList = (directory, some glob))
    (h : expandPattern fs pattern base = .ok files) : expandPattern fs other base = .ok files := by
  have hbase := isDirectory_of_expandPattern (Pattern.allBlank_eq_false_of_split hpattern) h
  obtain ⟨g, dotted, hg, hdotted⟩ := exists_globs_of_expandPattern hpattern h
  have hdotted' : (Pattern.dotSegments glob).mapM (readGlob other) = .ok dotted := by
    simpa only [mapM_eq_ok_iff, readGlob_eq_ok_iff] using hdotted
  rw [expandPattern_eq hbase hother hg hdotted', ← h, expandPattern_eq hbase hpattern hg hdotted]

lemma resolveComponents_congr_split {other : String} {directory glob : List Char} {c : Config}
    (hpattern : Pattern.split pattern.toList = (directory, some glob))
    (hother : Pattern.split other.toList = (directory, some glob))
    (h : resolveComponents fs c (some (.pattern pattern)) = .ok files) :
    resolveComponents fs c (some (.pattern other)) = .ok files := by
  unfold resolveComponents at h ⊢
  simp only at h ⊢
  obtain ⟨found, hfound, h⟩ := bind_eq_ok_iff.1 h
  rw [expandPattern_congr_split hpattern hother hfound]
  exact h

/-- A pattern that starts with a separator does not depend on the base directory, unless the first
segment behind the separator holds a wildcard: then it is read from the base directory, as if the
separator were not there. -/
theorem resolveComponents_of_slash (c : Config) {b b' : Path}
    (hb : fs.isDirectory ({ c with baseDir := b }.baseDirectory fs) = true)
    (hb' : fs.isDirectory ({ c with baseDir := b' }.baseDirectory fs) = true)
    (hpattern : pattern.toList = '/' :: text) :
    ((∀ ch ∈ text.takeWhile (· != '/'), Pattern.isWildcard ch = false) →
      resolveComponents fs { c with baseDir := b } (some (.pattern pattern)) =
        resolveComponents fs { c with baseDir := b' } (some (.pattern pattern))) ∧
    ((∃ ch ∈ text.takeWhile (· != '/'), Pattern.isWildcard ch = true) →
      ∀ files, resolveComponents fs { c with baseDir := b } (some (.pattern pattern)) = .ok files ↔
        resolveComponents fs { c with baseDir := b } (some (.pattern (String.ofList text))) =
          .ok files) := by
  refine ⟨fun h => ?_, fun h files => ?_⟩
  · apply resolveComponents_congr_base hb hb'
    rw [hpattern]
    exact Pattern.isAbsolute_split h
  · obtain ⟨hslash, hplain⟩ := Pattern.split_slash h
    rw [← hpattern] at hslash
    have hplain' : Pattern.split (String.ofList text).toList = ([], some text) := by
      rw [String.toList_ofList, hplain]
    exact ⟨resolveComponents_congr_split hslash hplain',
      resolveComponents_congr_split hplain' hslash⟩

/-- Two directories, and a file in one of them. -/
def twoDirectories : FileSystem where
  entries := [([Utf8.encode "a"], .directory), ([Utf8.encode "a", Utf8.encode "c.t"], .file []),
    ([Utf8.encode "b"], .directory)]
  current := []

/-- `/a/*.t` is the same from both directories, and `/*.t` is `*.t` from the first. -/
theorem resolveComponents_of_slash_both :
    resolveComponents twoDirectories { Config.standard with baseDir := Path.ofString "/a" }
        (some (.pattern "/a/*.t")) =
      resolveComponents twoDirectories { Config.standard with baseDir := Path.ofString "/b" }
        (some (.pattern "/a/*.t")) ∧
    ∀ files, resolveComponents twoDirectories { Config.standard with baseDir := Path.ofString "/a" }
        (some (.pattern "/*.t")) = .ok files ↔
      resolveComponents twoDirectories { Config.standard with baseDir := Path.ofString "/a" }
        (some (.pattern (String.ofList ['*', '.', 't']))) = .ok files := by
  have hb : twoDirectories.isDirectory
      ({ Config.standard with baseDir := Path.ofString "/a" }.baseDirectory twoDirectories) =
        true := by
    decide +kernel
  have hb' : twoDirectories.isDirectory
      ({ Config.standard with baseDir := Path.ofString "/b" }.baseDirectory twoDirectories) =
        true := by
    decide +kernel
  have hbelow : "/a/*.t".toList = '/' :: ['a', '/', '*', '.', 't'] := rfl
  have hstar : "/*.t".toList = '/' :: ['*', '.', 't'] := rfl
  obtain ⟨hplain, -⟩ := resolveComponents_of_slash Config.standard hb hb' hbelow
  obtain ⟨-, hwild⟩ := resolveComponents_of_slash Config.standard hb hb' hstar
  exact ⟨hplain (by simp [Pattern.isWildcard]), hwild (by simp [Pattern.isWildcard])⟩

/-- `/*.t` is not the same from both directories. -/
theorem resolveComponents_slash_star :
    twoDirectories.isDirectory
        ({ Config.standard with baseDir := Path.ofString "/a" }.baseDirectory twoDirectories) =
          true ∧
      twoDirectories.isDirectory
        ({ Config.standard with baseDir := Path.ofString "/b" }.baseDirectory twoDirectories) =
          true ∧
      resolveComponents twoDirectories { Config.standard with baseDir := Path.ofString "/a" }
        (some (.pattern "/*.t")) = .ok [Path.ofString "/a/c.t"] ∧
      resolveComponents twoDirectories { Config.standard with baseDir := Path.ofString "/b" }
        (some (.pattern "/*.t")) = .ok [] := by
  refine ⟨?_, ?_, ?_, ?_⟩ <;> decide +kernel

end StyleGuide
