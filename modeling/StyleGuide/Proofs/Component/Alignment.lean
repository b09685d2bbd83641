import Mathlib.Tactic.Common
import StyleGuide.Proofs.Component.Expansion
import StyleGuide.Proofs.FileSystem.LinkFree
import StyleGuide.Proofs.Glob.Segment

/-!
# Expanding patterns segment by segment

The files that a pattern without choices, classes and escapes stands for, said by its segments: the
names below the directory to search stand against them. A hidden name has to be matched by a segment
that starts with a dot, but that need not be the segment which the name stands against.

## Main definitions

* `Pattern.CoversHidden`: a hidden name stands against a segment that starts with a dot.
* `Pattern.Contested`: the hidden names that a segment without a leading dot takes.

## Main results

* `expandPattern_of_segments`: the expansion lists the files whose names can be aligned with the
  segments.
-/

namespace StyleGuide

open FileSystem Glob

namespace Pattern

/-- A hidden name stands against a segment that starts with a dot. -/
def CoversHidden (segment : List Char) (name : Bytes) : Prop :=
  name.head? = some Path.dot → segment.head? = some '.'

/-- A hidden name that a segment without a leading dot takes. -/
def Contested (text : List Char) (name : Bytes) : Prop :=
  name.head? = some Path.dot ∧ ∃ s ∈ cut (· == '/') text, s.head? ≠ some '.' ∧
    (s = ['*', '*'] ∨ MatchesName s name)

variable {text : List Char} {names : List Bytes}

/-- Names that stand against segments with a leading dot where they are hidden are visited. -/
lemma visits_of_aligned (h : Aligned CoversHidden (cut (· == '/') text) names) :
    ∀ n ∈ names, Visits text n := by
  intro n hn
  obtain ⟨s, hs, hcovers, hmatch⟩ := h.exists_covers n hn
  by_cases hhidden : n.head? = some Path.dot
  · have hdot := hcovers hhidden
    refine .inr ⟨s, hs, hdot, hmatch.resolve_left ?_⟩
    rintro rfl
    cases hdot
  · exact .inl hhidden

/-- Where no name is contested, every hidden one stands against a segment with a leading dot. -/
lemma aligned_of_not_contested {covers : List Char → Bytes → Prop}
    (h : Aligned covers (cut (· == '/') text) names) (hnames : ∀ n ∈ names, ¬ Contested text n) :
    Aligned CoversHidden (cut (· == '/') text) names := by
  refine h.imp fun s hs n hn hmatch _ hhidden => ?_
  by_contra hdot
  exact hnames n hn ⟨hhidden, s, hs, hdot, hmatch⟩

end Pattern

/-! ## What an expansion lists -/

section Expansion

variable {fs : FileSystem} {pattern : String} {base : Path} {directory text : List Char}
  {glob : Glob} {files : List Path}

/-- A pattern is expanded only where the base directory is a directory. -/
lemma isDirectory_of_expandPattern (hblank : allBlank pattern.toList = false)
    (h : expandPattern fs pattern base = .ok files) : fs.isDirectory base = true := by
  rw [← checkBaseDirectory_eq_ok_iff]
  cases hcheck : checkBaseDirectory fs base with
  | ok => rfl
  | error e =>
    simp only [expandPattern, hblank, hcheck] at h
    cases h

/-- A pattern without wildcards names one file. -/
lemma expandPattern_eq_of_none (hblank : allBlank pattern.toList = false)
    (hbase : fs.isDirectory base = true)
    (hsplit : Pattern.split pattern.toList = (directory, none)) :
    expandPattern fs pattern base =
      .ok (if fs.isFile (base.absolutize ⟨Utf8.encodeChars directory⟩) then
        [base.absolutize ⟨Utf8.encodeChars directory⟩] else []) := by
  simp only [expandPattern, hblank, hsplit, checkBaseDirectory_eq_ok_iff.2 hbase]
  rfl

/-- The globs of a pattern that is expanded are well formed. -/
lemma exists_globs_of_expandPattern
    (hsplit : Pattern.split pattern.toList = (directory, some text))
    (h : expandPattern fs pattern base = .ok files) :
    ∃ glob dotted, Glob.parse text = .ok glob ∧
      (Pattern.dotSegments text).mapM (readGlob pattern) = .ok dotted := by
  have hblank := Pattern.allBlank_eq_false_of_split hsplit
  have hbase := isDirectory_of_expandPattern hblank h
  simp only [expandPattern, hblank, hsplit, checkBaseDirectory_eq_ok_iff.2 hbase] at h
  obtain ⟨-, -, h⟩ := bind_eq_ok_iff.1 h
  obtain ⟨glob, hglob, h⟩ := bind_eq_ok_iff.1 h
  obtain ⟨dotted, hdotted, -⟩ := bind_eq_ok_iff.1 h
  exact ⟨glob, dotted, readGlob_eq_ok_iff.1 hglob, hdotted⟩

/-- The files in an expansion, where there is one. -/
theorem mem_iff_of_expandPattern_eq_ok (hfs : fs.WellFormed)
    (hsplit : Pattern.split pattern.toList = (directory, some text))
    (hglob : Glob.parse text = .ok glob)
    (hdots : ∀ s ∈ cut (· == '/') text, s.head? = some '.' → ∃ g, Glob.parse s = .ok g)
    (h : expandPattern fs pattern base = .ok files) :
    ∀ p, p ∈ files ↔ ∃ names,
      Pattern.Expands fs (base.absolutize ⟨Utf8.encodeChars directory⟩) text glob names ∧
        p = (base.absolutize ⟨Utf8.encodeChars directory⟩).below names := by
  obtain ⟨dotted, hdotted, hallows⟩ := exists_dotted pattern hdots
  have hbase := isDirectory_of_expandPattern (Pattern.allBlank_eq_false_of_split hsplit) h
  rw [expandPattern_eq hbase hsplit hglob hdotted] at h
  split_ifs at h with hroot
  · have hnone : ∀ names e, ¬ Fault fs (Pattern.allows dotted ·)
        (base.absolutize ⟨Utf8.encodeChars directory⟩) names e := by
      intro names e hfault
      obtain ⟨e', he'⟩ := exists_filesBelow_eq_error glob hfs hfault
      rw [h] at he'
      cases he'
    obtain ⟨files', hfiles', -, hmem⟩ := exists_filesBelow glob hfs hroot hallows hnone
    rw [h] at hfiles'
    cases hfiles'
    exact hmem
  · cases h
    intro p
    have hempty : ∀ names, ¬ Pattern.Expands fs
        (base.absolutize ⟨Utf8.encodeChars directory⟩) text glob names := fun _ h => hroot h.start
    simp [hempty]

/-- The globs of a pattern are read before it is expanded, so they tell what there is in the
expansion. -/
theorem exists_glob_of_expandPattern (hfs : fs.WellFormed)
    (hsplit : Pattern.split pattern.toList = (directory, some text))
    (h : expandPattern fs pattern base = .ok files) :
    ∃ glob, Glob.parse text = .ok glob ∧ ∀ p, p ∈ files ↔ ∃ names,
      Pattern.Expands fs (base.absolutize ⟨Utf8.encodeChars directory⟩) text glob names ∧
        p = (base.absolutize ⟨Utf8.encodeChars directory⟩).below names := by
  obtain ⟨glob, dotted, hglob, hdotted⟩ := exists_globs_of_expandPattern hsplit h
  have hdots : ∀ s ∈ cut (· == '/') text, s.head? = some '.' → ∃ g, Glob.parse s = .ok g := by
    intro s hs hdot
    have hread := exists_mapM_eq_ok_iff.1 ⟨dotted, hdotted⟩ s
      (List.mem_filter.2 ⟨hs, by simpa using hdot⟩)
    exact hread.imp fun _ => readGlob_eq_ok_iff.1
  exact ⟨glob, hglob, mem_iff_of_expandPattern_eq_ok hfs hsplit hglob hdots h⟩

/-- A pattern is expanded where the base directory is one and the walk meets no fault. -/
lemma exists_expandPattern (hfs : fs.WellFormed)
    (hsplit : Pattern.split pattern.toList = (directory, some text))
    (hglob : Glob.parse text = .ok glob)
    (hdots : ∀ s ∈ cut (· == '/') text, s.head? = some '.' → ∃ g, Glob.parse s = .ok g)
    (hbase : fs.isDirectory base = true)
    (hnone : ∀ names e, ¬ Fault fs (Pattern.Visits text)
      (base.absolutize ⟨Utf8.encodeChars directory⟩) names e) :
    ∃ files, expandPattern fs pattern base = .ok files := by
  obtain ⟨dotted, hdotted, hallows⟩ := exists_dotted pattern hdots
  have hallowed : ∀ names e, ¬ Fault fs (Pattern.allows dotted ·)
      (base.absolutize ⟨Utf8.encodeChars directory⟩) names e := by
    simpa only [hallows] using hnone
  rw [expandPattern_eq hbase hsplit hglob hdotted]
  split
  · obtain ⟨files, hfiles, -⟩ := exists_filesBelow glob hfs ‹_› hallows hallowed
    exact ⟨files, hfiles⟩
  · exact ⟨[], rfl⟩

end Expansion

/-! ## Segments -/

/-- The segments of a text are read as globs of their own. -/
lemma exists_parse_of_isSimple {s : List Char} (hsimple : IsSimple s) (hslash : '/' ∉ s)
    (hne : s ≠ []) : ∃ g, Glob.parse s = .ok g := by
  by_cases hdirs : s = ['*', '*']
  · subst hdirs
    exact ⟨_, parse_stars⟩
  · exact ⟨_, parse_segment hsimple hslash hne hdirs⟩

/-- The segments of a text without choices, classes and escapes have none either. -/
lemma isSimple_of_mem_cut {text s : List Char} (hsimple : IsSimple text)
    (hs : s ∈ cut (· == '/') text) : IsSimple s ∧ '/' ∉ s :=
  ⟨fun c hc => hsimple c (mem_of_mem_cut hs hc),
    fun hslash => by simpa using not_mem_of_mem_cut _ hs hslash⟩

/-- The glob of a text without choices, classes and escapes, and those of its segments. -/
lemma exists_parse_segments {text : List Char} (hsimple : IsSimple text)
    (hsegments : ∀ s ∈ cut (· == '/') text, s ≠ []) :
    (∀ s ∈ cut (· == '/') text, ∃ g, Glob.parse s = .ok g) ∧
      ∃ g, Glob.parse text = .ok g ∧ ∀ names, names ≠ [] → (∀ n ∈ names, Path.slash ∉ n) →
        (g.isMatch (joinWith Path.slash names) = true ↔
          Aligned (fun _ _ => True) (cut (· == '/') text) names) := by
  have hsegment := fun s (hs : s ∈ cut (· == '/') text) => isSimple_of_mem_cut hsimple hs
  refine ⟨fun s hs => ?_, ?_⟩
  · exact exists_parse_of_isSimple (hsegment s hs).1 (hsegment s hs).2 (hsegments s hs)
  · obtain ⟨g, hg, hmatch⟩ := isMatch_iff_aligned (cut_ne_nil _ _)
      fun s hs => ⟨(hsegment s hs).1, hsegments s hs, (hsegment s hs).2⟩
    rw [joinWith_cut] at hg
    exact ⟨g, hg, hmatch⟩

/-- A pattern without choices, classes and escapes stands for the files whose names can be aligned
with its segments, every hidden name being matched by some segment with a leading dot. That need not
be the segment which the name stands against, unless no other segment takes the name. -/
theorem expandPattern_of_segments {fs : FileSystem} (hfs : fs.WellFormed) {pattern : String}
    (base : Path) {directory text : List Char}
    (hsplit : Pattern.split pattern.toList = (directory, some text)) (hsimple : IsSimple text)
    (hsegments : ∀ s ∈ cut (· == '/') text, s ≠ []) :
    let root := base.absolutize ⟨Utf8.encodeChars directory⟩
    let segments := cut (· == '/') text
    (fs.isDirectory base = true → (∀ names e, ¬ Fault fs (Pattern.Visits text) root names e) →
      ∃ files, expandPattern fs pattern base = .ok files) ∧
    ∀ files, expandPattern fs pattern base = .ok files →
      (∀ p ∈ files, ∃ names, p = root.below names ∧ (∀ n ∈ names, IsFileName n) ∧
        fs.isFile p = true ∧ Aligned (fun _ n => Pattern.Visits text n) segments names ∧
        ((∀ n ∈ names, ¬ Pattern.Contested text n) →
          Aligned Pattern.CoversHidden segments names)) ∧
      ∀ names, fs.isDirectory root = true → (∀ n ∈ names, IsFileName n) →
        fs.isFile (root.below names) = true →
        (Aligned (fun _ n => Pattern.Visits text n) segments names ∨
          Aligned Pattern.CoversHidden segments names) →
        root.below names ∈ files := by
  intro root segments
  obtain ⟨hparse, glob, hglob, hmatch⟩ := exists_parse_segments hsimple hsegments
  have hdots : ∀ s ∈ cut (· == '/') text, s.head? = some '.' → ∃ g, Glob.parse s = .ok g :=
    fun s hs _ => hparse s hs
  refine ⟨exists_expandPattern hfs hsplit hglob hdots, fun files hfiles => ?_⟩
  have hmem := mem_iff_of_expandPattern_eq_ok hfs hsplit hglob hdots hfiles
  constructor
  · intro p hp
    obtain ⟨names, hnames, rfl⟩ := (hmem p).1 hp
    have haligned : Aligned (fun _ _ => True) segments names :=
      (hmatch names hnames.ne_nil fun n hn => (hnames.isFileName n hn).no_slash).1 hnames.matched
    exact ⟨names, rfl, hnames.isFileName, hnames.isFile,
      haligned.imp fun _ _ n hn _ _ => hnames.visited n hn,
      Pattern.aligned_of_not_contested haligned⟩
  · intro names hroot hnames hfile haligned
    have hvisited : ∀ n ∈ names, Pattern.Visits text n := by
      rcases haligned with h | h
      · intro n hn
        obtain ⟨-, -, hvisits, -⟩ := h.exists_covers n hn
        exact hvisits
      · exact Pattern.visits_of_aligned h
    have hplain : Aligned (fun _ _ => True) segments names := by
      rcases haligned with h | h <;> exact h.imp fun _ _ _ _ _ _ => trivial
    have hne := hplain.ne_nil (cut_ne_nil _ _)
    exact (hmem _).2 ⟨names, ⟨hroot, hne, hnames, hvisited, hfile,
      (hmatch names hne fun n hn => (hnames n hn).no_slash).2 hplain⟩, rfl⟩

/-- A hidden directory with a file that is shown and one that is hidden. -/
def hiddenDirectory : FileSystem where
  entries := [([Utf8.encode ".a"], .directory), ([Utf8.encode ".a", Utf8.encode "b.t"], .file []),
    ([Utf8.encode ".a", Utf8.encode ".b.t"], .file [])]
  current := []

/-- `.*/*.t` stands for the file that is shown. -/
theorem expandPattern_of_segments_shown :
    ∃ files, expandPattern hiddenDirectory ".*/*.t" (Path.ofString "/") = .ok files ∧
      (Path.ofString "/").below [Utf8.encode ".a", Utf8.encode "b.t"] ∈ files := by
  have hlinks : hiddenDirectory.LinkFree := by decide +kernel
  have hfs : hiddenDirectory.WellFormed :=
    ⟨by decide +kernel, by decide +kernel, hlinks.link_no_nul⟩
  have hsplit : Pattern.split ".*/*.t".toList = ([], some ".*/*.t".toList) := by decide +kernel
  have hroot : (Path.ofString "/").absolutize ⟨Utf8.encodeChars []⟩ = Path.ofString "/" := by
    decide +kernel
  have hcut : cut (· == '/') ".*/*.t".toList = [['.', '*'], ['*', '.', 't']] := by decide +kernel
  have hmatch : MatchesName ['.', '*'] (Utf8.encode ".a") ∧
      MatchesName ['*', '.', 't'] (Utf8.encode "b.t") :=
    ⟨⟨_, parse_segment (by simp [IsSimple]) (by decide) (by decide) (by decide),
        by decide +kernel⟩,
      ⟨_, parse_segment (by simp [IsSimple]) (by decide) (by decide) (by decide),
        by decide +kernel⟩⟩
  have haligned : Aligned Pattern.CoversHidden [['.', '*'], ['*', '.', 't']]
      [Utf8.encode ".a", Utf8.encode "b.t"] :=
    .name (by decide) hmatch.1 (fun _ => rfl) (.name (by decide) hmatch.2
      (fun h => absurd h (by decide +kernel)) .nil)
  obtain ⟨hexists, hfiles⟩ := expandPattern_of_segments hfs (Path.ofString "/") hsplit
    (by simp [IsSimple]) (by rw [hcut]; decide)
  simp only [hroot, hcut] at hfiles
  obtain ⟨files, h⟩ := hexists (by decide +kernel) fun _ _ => hlinks.not_fault hfs rfl
  obtain ⟨-, hfound⟩ := hfiles files h
  exact ⟨files, h,
    hfound _ (by decide +kernel) (by decide +kernel) (by decide +kernel) (.inr haligned)⟩

/-- `.*/*.t` also stands for the file that is hidden: a segment with a leading dot matches its name,
though the name stands against `*.t`. -/
theorem expandPattern_hidden_below_hidden :
    expandPattern hiddenDirectory ".*/*.t" (Path.ofString "/") =
        .ok [Path.ofString "/.a/.b.t", Path.ofString "/.a/b.t"] ∧
      ∀ names, (∀ n ∈ names, IsFileName n) →
        Path.ofString "/.a/.b.t" = (Path.ofString "/").below names →
        ¬ Aligned Pattern.CoversHidden [['.', '*'], ['*', '.', 't']] names := by
  refine ⟨by decide +kernel, fun names hnames hbelow haligned => ?_⟩
  have hcomponents := Path.components_below (p := Path.ofString "/") (by decide +kernel) hnames
  have hparts : (Path.ofString "/.a/.b.t").components =
      [.root, .name (Utf8.encode ".a"), .name (Utf8.encode ".b.t")] := by decide +kernel
  have hroot : (Path.ofString "/").components = [.root] := by decide +kernel
  rw [← hbelow, hparts, hroot] at hcomponents
  obtain ⟨a, b, rfl⟩ : ∃ a b, names = [a, b] := by
    rcases names with _ | ⟨a, _ | ⟨b, _ | ⟨c, names⟩⟩⟩ <;> simp_all
  rw [Aligned.name_iff (by decide), Aligned.name_iff (by decide)] at haligned
  obtain ⟨-, -, -, hcovers, -⟩ := haligned
  have hb : b = Utf8.encode ".b.t" := by simp_all
  subst hb
  exact absurd (hcovers (by decide +kernel)) (by decide)

end StyleGuide
