import Mathlib.Tactic.Common
import StyleGuide.Proofs.Component.Absolute
import StyleGuide.Proofs.Component.Split
import StyleGuide.Proofs.Glob.Acceptance

/-!
# Patterns that are refused

A pattern is refused for its glob, whether or not the directory to search is there. The glob is read
as a whole and then its segments that start with a dot are read by themselves; the first of these
texts that is no glob gives the reason. A segment of a glob need not be one: a separator in a class,
in a choice or behind a backslash cuts the glob where it cannot be cut.

## Main definitions

* `Glob.IsCutInside`: a separator stands at such a place.

## Main results

* `Glob.exists_not_isGlob_iff`: a glob has a segment that is none just where it is cut inside.
* `resolveComponents_eq_invalidPattern_iff`: when a pattern is refused, and why.
-/

namespace StyleGuide

open FileSystem

/-! ## Segments of globs -/

namespace Glob

/-- The text can be read as a glob. -/
def IsGlob (text : List Char) : Prop := ∃ g, parse text = .ok g

/-- A separator stands inside a class or a choice, or behind a backslash: the text in front of it
breaks off. -/
def IsCutInside (text : List Char) : Prop :=
  ∃ front back e, text = front ++ '/' :: back ∧ parse front = .error e ∧ e.IsUnfinished

variable {text : List Char}

lemma isGlob_iff_verdict : IsGlob text ↔ verdict 0 text = .ok () := (parse_iff text).1

lemma not_isGlob_iff : ¬ IsGlob text ↔ ∃ e, parse text = .error e := by
  unfold IsGlob
  cases parse text <;> simp

/-- A glob has a segment that is none just where a separator cuts it inside. -/
theorem exists_not_isGlob_iff (h : IsGlob text) :
    (∃ s ∈ cut (· == '/') text, ¬ IsGlob s) ↔ IsCutInside text := by
  rw [isGlob_iff_verdict] at h
  have hsegments := (verdict_segments_iff h).not
  push Not at hsegments
  simp only [isGlob_iff_verdict]
  rw [hsegments]
  constructor
  · rintro ⟨front, back, rfl, hfront⟩
    obtain ⟨e, he⟩ := not_isGlob_iff.1 (isGlob_iff_verdict.not.2 hfront)
    exact ⟨front, back, e, rfl, he,
      isUnfinished_of_verdict_append h (((parse_iff front).2 e).1 he)⟩
  · rintro ⟨front, back, e, rfl, he, -⟩
    refine ⟨front, back, rfl, fun hfront => ?_⟩
    exact not_isGlob_iff.2 ⟨e, he⟩ (isGlob_iff_verdict.2 hfront)

end Glob

namespace Pattern

/-- The glob of a pattern: its segments from the first on that holds a wildcard. -/
def globText (pattern : List Char) : List Char := joinWith '/' (globSegments pattern)

lemma globSegments_eq_nil_iff {pattern : List Char} :
    globSegments pattern = [] ↔ ∀ c ∈ pattern, isWildcard c = false := by
  constructor
  · intro h c hc
    by_contra hwild
    rw [Bool.not_eq_false] at hwild
    have hsplit := split_eq pattern
    rw [if_pos h, split] at hsplit
    simp only at hsplit
    split at hsplit
    next hplain =>
      have hall := List.takeWhile_eq_self_iff.1
        ((List.takeWhile_prefix (!isWildcard ·)).eq_of_length hplain)
      simpa [hwild] using hall c hc
    · split at hsplit <;> exact absurd (congrArg Prod.snd hsplit) (by simp)
  · exact fun h => (segments_of_literal h).2

/-- A pattern has a glob just where there is a wildcard in it. -/
lemma split_eq_some_iff {pattern directory text : List Char} :
    split pattern = (directory, some text) ↔
      directory = joinWith '/' (literalSegments pattern) ∧ text = globText pattern ∧
        ∃ c ∈ pattern, isWildcard c = true := by
  have hwild : globSegments pattern ≠ [] ↔ ∃ c ∈ pattern, isWildcard c = true := by
    rw [Ne, globSegments_eq_nil_iff]
    simp
  rw [split_eq, Prod.mk.injEq, ← hwild, globText]
  split <;> grind

end Pattern

/-! ## The reason of the refusal -/

variable {fs : FileSystem} {pattern p : String} {cause : Glob.Error} {xs : List (List Char)}

lemma readGlob_eq_invalidPattern_iff {text : List Char} :
    readGlob pattern text = .error (.invalidPattern p cause) ↔
      p = pattern ∧ Glob.parse text = .error cause := by
  rw [readGlob, mapError_eq_error_iff]
  grind

lemma failsFirst_readGlob_iff :
    FailsFirst (readGlob pattern) xs (.invalidPattern p cause) ↔
      p = pattern ∧ FailsFirst Glob.parse xs cause := by
  unfold FailsFirst
  simp only [readGlob_eq_ok_iff, readGlob_eq_invalidPattern_iff]
  grind

lemma filesBelow_ne_invalidPattern {root : Path} {glob : Glob} {dotted : List Glob} :
    filesBelow fs root glob dotted ≠ .error (.invalidPattern p cause) := by
  unfold filesBelow
  split <;> simp

/-- Nothing but the reading of the globs refuses a pattern. -/
lemma expandPattern_eq_invalidPattern_iff_mapM {base : Path} {directory text : List Char}
    (hbase : fs.isDirectory base = true)
    (hsplit : Pattern.split pattern.toList = (directory, some text)) :
    expandPattern fs pattern base = .error (.invalidPattern p cause) ↔
      (text :: Pattern.dotSegments text).mapM (readGlob pattern) =
        .error (.invalidPattern p cause) := by
  rw [mapM_eq_error_iff, failsFirst_cons_iff, ← mapM_eq_error_iff]
  simp only [expandPattern, Pattern.allBlank_eq_false_of_split hsplit, hsplit,
    checkBaseDirectory_eq_ok_iff.2 hbase]
  change (readGlob pattern text >>= _) = _ ↔ _
  rw [bind_eq_error_iff]
  rw [← exists_and_right]
  refine or_congr_right (exists_congr fun glob => and_congr_right fun _ => ?_)
  rw [bind_eq_error_iff, or_iff_left]
  rintro ⟨dotted, -, h⟩
  split at h
  · exact filesBelow_ne_invalidPattern h
  · cases h

/-- The first of the texts to be read that is no glob gives the reason. -/
lemma expandPattern_eq_invalidPattern_iff {base : Path} (hbase : fs.isDirectory base = true) :
    expandPattern fs pattern base = .error (.invalidPattern p cause) ↔
      p = pattern ∧ (∃ ch ∈ pattern.toList, Pattern.isWildcard ch = true) ∧
        FailsFirst Glob.parse (Pattern.globText pattern.toList ::
          Pattern.dotSegments (Pattern.globText pattern.toList)) cause := by
  by_cases hwild : ∃ ch ∈ pattern.toList, Pattern.isWildcard ch = true
  · have hsplit := Pattern.split_eq_some_iff.2 ⟨rfl, rfl, hwild⟩
    rw [expandPattern_eq_invalidPattern_iff_mapM hbase hsplit, mapM_eq_error_iff,
      failsFirst_readGlob_iff]
    simp only [hwild, true_and]
  · -- Without a wildcard nothing is read as a glob.
    have hsplit := Pattern.split_eq pattern.toList
    rw [if_pos (Pattern.globSegments_eq_nil_iff.2 (by simpa using hwild))] at hsplit
    refine iff_of_false (fun h => ?_) fun h => hwild h.2.1
    simp only [expandPattern, hsplit, checkBaseDirectory_eq_ok_iff.2 hbase] at h
    split at h <;> cases h

/-- Afterwards no reason to refuse a pattern comes up. -/
lemma resolveComponents_eq_invalidPattern_iff_expandPattern {c : Config} :
    resolveComponents fs c (some (.pattern pattern)) = .error (.invalidPattern p cause) ↔
      expandPattern fs pattern (c.baseDirectory fs) = .error (.invalidPattern p cause) := by
  unfold resolveComponents
  simp only
  rw [bind_eq_error_iff, or_iff_left]
  rintro ⟨files, -, h⟩
  cases h

/-- A pattern is refused just where there is a wildcard in it and the glob or one of its segments
that start with a dot is no glob, and the first such text gives the reason; that the directory to
search is there is not asked for. Where no separator cuts the glob inside, only the glob as a whole
counts. -/
theorem resolveComponents_eq_invalidPattern_iff {c : Config}
    (hbase : fs.isDirectory (c.baseDirectory fs) = true) (pattern p : String)
    (cause : Glob.Error) :
    let glob := Pattern.globText pattern.toList
    let IsRefused := resolveComponents fs c (some (.pattern pattern)) =
      .error (.invalidPattern p cause)
    let HasWildcard := ∃ ch ∈ pattern.toList, Pattern.isWildcard ch = true
    (IsRefused ↔ p = pattern ∧ HasWildcard ∧
      FailsFirst Glob.parse (glob :: Pattern.dotSegments glob) cause) ∧
    (¬ Glob.IsCutInside glob →
      (IsRefused ↔ p = pattern ∧ HasWildcard ∧ Glob.parse glob = .error cause)) := by
  intro glob IsRefused HasWildcard
  have hrefused : IsRefused ↔ p = pattern ∧ HasWildcard ∧
      FailsFirst Glob.parse (glob :: Pattern.dotSegments glob) cause :=
    resolveComponents_eq_invalidPattern_iff_expandPattern.trans
      (expandPattern_eq_invalidPattern_iff hbase)
  refine ⟨hrefused, fun hcut => ?_⟩
  rw [hrefused, failsFirst_cons_iff, or_iff_left]
  rintro ⟨hglob, before, segment, after, hsegments, -, hcause⟩
  have hmem : segment ∈ Pattern.dotSegments glob := by simp [hsegments]
  exact hcut ((Glob.exists_not_isGlob_iff hglob).1
    ⟨segment, (List.mem_filter.1 hmem).1, Glob.not_isGlob_iff.2 ⟨cause, hcause⟩⟩)

/-- A class that is not closed is refused, also where there is no directory to search. -/
theorem resolveComponents_unclosedClass :
    twoDirectories.isDirectory (Path.ofString "/a/d") = false ∧
      resolveComponents twoDirectories { Config.standard with baseDir := Path.ofString "/a" }
        (some (.pattern "d/[*.t")) = .error (.invalidPattern "d/[*.t" .unclosedClass) := by
  have hbase : twoDirectories.isDirectory
      ({ Config.standard with baseDir := Path.ofString "/a" }.baseDirectory twoDirectories) =
        true := by
    decide +kernel
  have hcut : ¬ Glob.IsCutInside (Pattern.globText "d/[*.t".toList) := by
    have htext : Pattern.globText "d/[*.t".toList = "[*.t".toList := by decide +kernel
    rintro ⟨front, back, e, h, -⟩
    have hslash : '/' ∈ front ++ '/' :: back := by simp
    rw [← h, htext] at hslash
    revert hslash
    decide
  have hwild : ∃ ch ∈ "d/[*.t".toList, Pattern.isWildcard ch = true := ⟨'*', by simp, by decide⟩
  have htext : Pattern.globText "d/[*.t".toList = "[*.t".toList := by decide +kernel
  have hparse : Glob.parse (Pattern.globText "d/[*.t".toList) = .error .unclosedClass := by
    rw [htext]
    simp [Glob.parse, Glob.readTokens, Glob.readClass, Glob.readRanges]
  have hrefused :=
    (resolveComponents_eq_invalidPattern_iff hbase "d/[*.t" "d/[*.t" .unclosedClass).2 hcut
  exact ⟨by decide +kernel, hrefused.2 ⟨rfl, hwild, hparse⟩⟩

/-- A choice between two paths is a glob, and refused for a segment that starts with a dot. -/
theorem resolveComponents_choice :
    twoDirectories.isDirectory
        ({ Config.standard with baseDir := Path.ofString "/a" }.baseDirectory twoDirectories) =
          true ∧
      Pattern.split "\x7ba/.b,c\x7d.t".toList = ([], some "\x7ba/.b,c\x7d.t".toList) ∧
      Glob.IsGlob "\x7ba/.b,c\x7d.t".toList ∧
      resolveComponents twoDirectories { Config.standard with baseDir := Path.ofString "/a" }
        (some (.pattern "\x7ba/.b,c\x7d.t")) =
          .error (.invalidPattern "\x7ba/.b,c\x7d.t" .unopenedChoice) := by
  have hbase : twoDirectories.isDirectory
      ({ Config.standard with baseDir := Path.ofString "/a" }.baseDirectory twoDirectories) =
        true := by
    decide +kernel
  have hsplit : Pattern.split "\x7ba/.b,c\x7d.t".toList =
      ([], some "\x7ba/.b,c\x7d.t".toList) := by
    decide +kernel
  have hglob : Glob.IsGlob "\x7ba/.b,c\x7d.t".toList := by
    rw [Glob.isGlob_iff_verdict]
    decide +kernel
  have hdots : Pattern.dotSegments "\x7ba/.b,c\x7d.t".toList = [".b,c\x7d.t".toList] := by
    decide +kernel
  have hsegment : Glob.parse ".b,c\x7d.t".toList = .error .unopenedChoice := by
    rw [(Glob.parse_iff _).2]
    decide +kernel
  refine ⟨hbase, hsplit, hglob, ?_⟩
  rw [resolveComponents_eq_invalidPattern_iff_expandPattern,
    expandPattern_eq_invalidPattern_iff_mapM hbase hsplit, mapM_eq_error_iff,
    failsFirst_readGlob_iff, hdots, failsFirst_cons_iff, failsFirst_cons_iff]
  exact ⟨rfl, .inr ⟨hglob, .inl hsegment⟩⟩

end StyleGuide
