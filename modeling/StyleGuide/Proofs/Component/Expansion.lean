import Mathlib.Data.List.TakeWhile
import Mathlib.Tactic.Common
import StyleGuide.Component.Set
import StyleGuide.Proofs.FileSystem.Fault
import StyleGuide.Proofs.Sequence

/-!
# Expanding patterns

The files that a pattern with wildcards stands for, said without the walk that finds them: below the
directory to search, the files that the glob matches and that no hidden name leads to, unless a
segment of the glob asks for that name.

## Main definitions

* `Pattern.Visits`: the names that are visited.
* `Pattern.Expands`: the files that a glob stands for, by the names that lead to them.

## Main results

* `expandPattern_of_wildcard`: the expansion lists these files in the order of their paths, or ends
  with the first fault in the same order.
-/

namespace StyleGuide

open FileSystem

namespace Pattern

/-- A name is visited when it is not hidden, or when a segment of the glob that starts with a dot
matches it. -/
def Visits (text : List Char) (name : Bytes) : Prop :=
  name.head? ≠ some Path.dot ∨
    ∃ segment ∈ cut (· == '/') text, segment.head? = some '.' ∧
      ∃ g, Glob.parse segment = .ok g ∧ Glob.isMatch g name = true

/-- The names below the directory `root` that lead to a file which the glob stands for. -/
structure Expands (fs : FileSystem) (root : Path) (text : List Char) (glob : Glob)
    (names : List Bytes) : Prop where
  start : fs.isDirectory root = true
  ne_nil : names ≠ []
  isFileName : ∀ n ∈ names, IsFileName n
  visited : ∀ n ∈ names, Visits text n
  isFile : fs.isFile (root.below names) = true
  matched : Glob.isMatch glob (joinWith Path.slash names) = true

/-! ## Reading a pattern -/

lemma not_isBlank_of_isWildcard {c : Char} (h : isWildcard c = true) : isBlank c = false := by
  simp only [isWildcard, Bool.or_eq_true, decide_eq_true_eq] at h
  rcases h with ((rfl | rfl) | rfl) | rfl <;> decide

/-- A pattern has a glob exactly when there is a wildcard in it. -/
lemma exists_isWildcard_of_split {pattern directory text : List Char}
    (h : split pattern = (directory, some text)) : ∃ c ∈ pattern, isWildcard c = true := by
  by_contra hnone
  have hplain : pattern.takeWhile (!isWildcard ·) = pattern := by
    rw [List.takeWhile_eq_self_iff]
    grind
  simp [split, hplain] at h

lemma allBlank_eq_false_of_split {pattern directory text : List Char}
    (h : split pattern = (directory, some text)) : allBlank pattern = false := by
  obtain ⟨c, hc, hwild⟩ := exists_isWildcard_of_split h
  rw [allBlank, List.all_eq_false]
  exact ⟨c, hc, by simp [not_isBlank_of_isWildcard hwild]⟩

end Pattern

lemma readGlob_eq_ok_iff {pattern : String} {text : List Char} {g : Glob} :
    readGlob pattern text = .ok g ↔ Glob.parse text = .ok g :=
  mapError_eq_ok_iff

/-- The globs for hidden names, read from a pattern whose segments are all well formed. -/
lemma exists_dotted (pattern : String) {text : List Char}
    (h : ∀ s ∈ cut (· == '/') text, s.head? = some '.' → ∃ g, Glob.parse s = .ok g) :
    ∃ dotted, (Pattern.dotSegments text).mapM (readGlob pattern) = .ok dotted ∧
      ∀ n, Pattern.allows dotted n = true ↔ Pattern.Visits text n := by
  have hread : ∀ s ∈ Pattern.dotSegments text, ∃ g, readGlob pattern s = .ok g := by
    intro s hs
    simp only [Pattern.dotSegments, List.mem_filter, beq_iff_eq] at hs
    obtain ⟨g, hg⟩ := h s hs.1 hs.2
    exact ⟨g, readGlob_eq_ok_iff.2 hg⟩
  obtain ⟨dotted, hdotted⟩ := exists_mapM_eq_ok_iff.2 hread
  refine ⟨dotted, hdotted, fun n => ?_⟩
  simp only [Pattern.allows, Pattern.Visits, Bool.or_eq_true, bne_iff_ne, List.any_eq_true,
    mem_iff_of_mapM_eq_ok hdotted, readGlob_eq_ok_iff, Pattern.dotSegments, List.mem_filter,
    beq_iff_eq]
  grind

/-! ## The expansion -/

variable {fs : FileSystem}

lemma checkBaseDirectory_eq_ok_iff {base : Path} :
    checkBaseDirectory fs base = .ok () ↔ fs.isDirectory base = true := by
  unfold checkBaseDirectory FileSystem.isDirectory
  split <;> simp_all

/-- A pattern with wildcards is expanded by a walk below the directory that it names. -/
lemma expandPattern_eq {pattern : String} {base : Path} {directory text : List Char} {glob : Glob}
    {dotted : List Glob} (hbase : fs.isDirectory base = true)
    (hsplit : Pattern.split pattern.toList = (directory, some text))
    (hglob : Glob.parse text = .ok glob)
    (hdotted : (Pattern.dotSegments text).mapM (readGlob pattern) = .ok dotted) :
    expandPattern fs pattern base =
      if fs.isDirectory (base.absolutize ⟨Utf8.encodeChars directory⟩) then
        filesBelow fs (base.absolutize ⟨Utf8.encodeChars directory⟩) glob dotted
      else .ok [] := by
  simp only [expandPattern, Pattern.allBlank_eq_false_of_split hsplit, hsplit,
    checkBaseDirectory_eq_ok_iff.2 hbase, readGlob_eq_ok_iff.2 hglob, hdotted]
  rfl

lemma filesBelow_eq_error_iff {root : Path} {glob : Glob} {dotted : List Glob} {e : WalkError} :
    filesBelow fs root glob dotted = .error (.walk root e) ↔
      fs.walk (Pattern.allows dotted) root = .error e := by
  unfold filesBelow
  split <;> grind

lemma filesBelow_eq_ok {root : Path} {glob : Glob} {dotted : List Glob} {found : List (List Bytes)}
    (h : fs.walk (Pattern.allows dotted) root = .ok found) :
    filesBelow fs root glob dotted = .ok
      ((found.filter fun names =>
        Glob.isMatch glob (joinWith Path.slash names)).map root.below) := by
  rw [filesBelow, h]
  rfl

lemma exists_walk_of_filesBelow {root : Path} {glob : Glob} {dotted : List Glob}
    {files : List Path} (h : filesBelow fs root glob dotted = .ok files) :
    ∃ found, fs.walk (Pattern.allows dotted) root = .ok found ∧
      files = (found.filter fun names =>
        Glob.isMatch glob (joinWith Path.slash names)).map root.below := by
  cases hwalk : fs.walk (Pattern.allows dotted) root with
  | error e => simp [filesBelow, hwalk] at h
  | ok found => exact ⟨found, rfl, (Except.ok.inj ((filesBelow_eq_ok hwalk).symm.trans h)).symm⟩

section Below

variable {root : Path} {text : List Char} {glob : Glob} {dotted : List Glob}

/-- Without a fault the files that the glob stands for are found, in the order of their paths. -/
lemma exists_filesBelow (glob : Glob) (hfs : fs.WellFormed) (hroot : fs.isDirectory root = true)
    (hallows : ∀ n, Pattern.allows dotted n = true ↔ Pattern.Visits text n)
    (hnone : ∀ names e, ¬ Fault fs (Pattern.allows dotted ·) root names e) :
    ∃ files, filesBelow fs root glob dotted = .ok files ∧ files.Pairwise (· < ·) ∧
      ∀ p, p ∈ files ↔ ∃ names, Pattern.Expands fs root text glob names ∧ p = root.below names := by
  obtain ⟨place, hplace, -⟩ := isDirectory_iff.1 hroot
  have hp := bytes_ne_nil_of_target (resolve_eq_ok_iff.1 hplace)
  obtain ⟨found, hwalk, hsorted, hmem⟩ := walk_eq_ok hfs hroot hnone
  refine ⟨_, filesBelow_eq_ok hwalk, ?_, fun p => ?_⟩
  · refine List.pairwise_map.2 (List.Pairwise.imp_of_mem ?_ (hsorted.filter _))
    intro names names' h h' hlt
    have hnames := ((hmem names).1 (List.mem_filter.1 h).1).2.1
    have hnames' := ((hmem names').1 (List.mem_filter.1 h').1).2.1
    exact (Path.below_lt_below_iff hp (fun n hn => (hnames n hn).1)
      fun n hn => (hnames' n hn).1).2 hlt
  · rw [List.mem_map]
    apply exists_congr
    intro names
    rw [List.mem_filter, hmem, eq_comm (a := p)]
    refine and_congr_left fun _ => ⟨?_, ?_⟩
    · rintro ⟨⟨hne, hnames, hfile⟩, hmatch⟩
      exact ⟨hroot, hne, fun n hn => (hnames n hn).1,
        fun n hn => (hallows n).1 (hnames n hn).2, hfile, hmatch⟩
    · rintro ⟨-, hne, hisName, hvisited, hfile, hmatch⟩
      exact ⟨⟨hne, fun n hn => ⟨hisName n hn, (hallows n).2 (hvisited n hn)⟩, hfile⟩, hmatch⟩

/-- The first fault is the one that is reported. -/
lemma filesBelow_eq_error_iff_fault (hfs : fs.WellFormed) (hroot : fs.isDirectory root = true)
    {e : WalkError} :
    filesBelow fs root glob dotted = .error (.walk root e) ↔
      ∃ names, Fault fs (Pattern.allows dotted ·) root names e ∧
        ∀ names' e', Fault fs (Pattern.allows dotted ·) root names' e' →
          ¬ root.below names' < root.below names := by
  obtain ⟨place, hplace, -⟩ := isDirectory_iff.1 hroot
  have hp := bytes_ne_nil_of_target (resolve_eq_ok_iff.1 hplace)
  rw [filesBelow_eq_error_iff, walk_eq_error_iff hfs hroot]
  refine exists_congr fun names => and_congr_right fun hfault => ?_
  refine forall_congr' fun names' => forall_congr' fun e' => forall_congr' fun hfault' => ?_
  rw [Path.below_lt_below_iff hp (hfault'.isFileName hfs) (hfault.isFileName hfs)]
  exact List.not_lt.symm

/-- Where there is a fault, one is reported. -/
lemma exists_filesBelow_eq_error (glob : Glob) (hfs : fs.WellFormed) {names : List Bytes}
    {e : WalkError} (h : Fault fs (Pattern.allows dotted ·) root names e) :
    ∃ e', filesBelow fs root glob dotted = .error (.walk root e') := by
  obtain ⟨e', hwalk⟩ := exists_walk_eq_error hfs h
  exact ⟨e', filesBelow_eq_error_iff.2 hwalk⟩

end Below

/-- A pattern with wildcards stands for the files that its glob matches and that no hidden name
leads to, but for the names that a segment of the glob asks for. They are listed in the order of
their paths, each of them once. Where a name on the way cannot be looked at, or leads to a directory
that may not be read, the first such name in the same order is reported. -/
theorem expandPattern_of_wildcard (hfs : fs.WellFormed) {pattern : String} {base : Path}
    {directory text : List Char} {glob : Glob} (hbase : fs.isDirectory base = true)
    (hsplit : Pattern.split pattern.toList = (directory, some text))
    (hglob : Glob.parse text = .ok glob)
    (hdots : ∀ s ∈ cut (· == '/') text, s.head? = some '.' → ∃ g, Glob.parse s = .ok g) :
    let root := base.absolutize ⟨Utf8.encodeChars directory⟩
    let Fails := Fault fs (Pattern.Visits text) root
    ((∀ names e, ¬ Fails names e) →
      ∃ files, expandPattern fs pattern base = .ok files ∧ files.Pairwise (· < ·) ∧
        ∀ p, p ∈ files ↔ ∃ names, Pattern.Expands fs root text glob names ∧ p = root.below names) ∧
    (∀ e, expandPattern fs pattern base = .error (.walk root e) ↔
      ∃ names, Fails names e ∧
        ∀ names' e', Fails names' e' → ¬ root.below names' < root.below names) ∧
    ((∃ names e, Fails names e) → ∃ e, expandPattern fs pattern base = .error (.walk root e)) := by
  intro root Fails
  obtain ⟨dotted, hdotted, hallows⟩ := exists_dotted pattern hdots
  have hFails : Fails = Fault fs (Pattern.allows dotted ·) root := by
    simp only [Fails, hallows]
  rw [expandPattern_eq hbase hsplit hglob hdotted, hFails]
  by_cases hroot : fs.isDirectory root = true
  · rw [if_pos hroot]
    refine ⟨fun hnone => ?_, fun e => ?_, fun ⟨names, e, hfault⟩ => ?_⟩
    · exact exists_filesBelow glob hfs hroot hallows hnone
    · exact filesBelow_eq_error_iff_fault hfs hroot
    · exact exists_filesBelow_eq_error glob hfs hfault
  · -- Where there is no directory, there is nothing to find and nothing to fail.
    rw [if_neg hroot]
    have hnone : ∀ names e, ¬ Fault fs (Pattern.allows dotted ·) root names e :=
      fun names e hfault => hroot hfault.isDirectory
    refine ⟨fun _ => ⟨[], rfl, .nil, fun p => ?_⟩, fun e => ?_, fun ⟨names, e, hfault⟩ => ?_⟩
    · have hempty : ∀ names, ¬ Pattern.Expands fs root text glob names := fun _ h => hroot h.start
      simp [hempty]
    · simp [hnone]
    · exact absurd hfault (hnone names e)

/-- A directory with a file that is shown, a hidden one, and a directory that may not be read. -/
def withClosed (closed : String) : FileSystem where
  entries := [([Utf8.encode "a"], .directory), ([Utf8.encode "a", Utf8.encode "b.t"], .file []),
    ([Utf8.encode "a", Utf8.encode ".b.t"], .file []),
    ([Utf8.encode "a", Utf8.encode closed], .directory),
    ([Utf8.encode "a", Utf8.encode closed, Utf8.encode "b.t"], .file [])]
  current := []
  unreadable := [[Utf8.encode "a", Utf8.encode closed]]

lemma wellFormed_withClosed {closed : String} (h : IsFileName (Utf8.encode closed))
    (hdir : entry? (withClosed closed) [Utf8.encode "a", Utf8.encode closed] = some .directory) :
    (withClosed closed).WellFormed := by
  have ha : IsFileName (Utf8.encode "a") := by decide +kernel
  have hb : IsFileName (Utf8.encode "b.t") := by decide +kernel
  have hhidden : IsFileName (Utf8.encode ".b.t") := by decide +kernel
  refine ⟨?_, ?_, by simp [withClosed]⟩
  · simp [withClosed, h, ha, hb, hhidden]
  · have ha : entry? (withClosed closed) [Utf8.encode "a"] = some .directory := by
      simp [withClosed, entry?]
    have hroot : entry? (withClosed closed) [] = some .directory := rfl
    simpa [withClosed] using ⟨hroot, ha, hdir⟩

lemma expandPattern_star_hidden :
    expandPattern (withClosed ".c") "*.t" (Path.ofString "/a") = .ok [Path.ofString "/a/b.t"] := by
  decide +kernel

lemma expandPattern_star_closed :
    expandPattern (withClosed "c") "*.t" (Path.ofString "/a") =
      .error (.walk (Path.ofString "/a")
        (.unreadable (Path.ofString "/a/c") .permissionDenied)) := by
  decide +kernel

/-- `*.t` stands for the file that is shown, and only for that. The directory that may not be read
is passed over where it is hidden; otherwise it is what is reported, though no file in it would
match. -/
theorem expandPattern_star :
    (expandPattern (withClosed ".c") "*.t" (Path.ofString "/a") = .ok [Path.ofString "/a/b.t"] ∧
      ∀ p, p = Path.ofString "/a/b.t" ↔
        ∃ names, Pattern.Expands (withClosed ".c") (Path.ofString "/a") "*.t".toList
          [.star, .literal '.', .literal 't'] names ∧ p = (Path.ofString "/a").below names) ∧
    expandPattern (withClosed "c") "*.t" (Path.ofString "/a") =
        .error (.walk (Path.ofString "/a")
          (.unreadable (Path.ofString "/a/c") .permissionDenied)) ∧
      ∃ names, Fault (withClosed "c") (Pattern.Visits "*.t".toList) (Path.ofString "/a") names
        (.unreadable (Path.ofString "/a/c") .permissionDenied) := by
  have hhidden : (withClosed ".c").WellFormed :=
    wellFormed_withClosed (by decide +kernel) (by decide +kernel)
  have hshown : (withClosed "c").WellFormed :=
    wellFormed_withClosed (by decide +kernel) (by decide +kernel)
  have hroot : (Path.ofString "/a").absolutize ⟨Utf8.encodeChars []⟩ = Path.ofString "/a" := by
    decide +kernel
  have hfound := expandPattern_star_hidden
  have hbase : (withClosed ".c").isDirectory (Path.ofString "/a") = true := by decide +kernel
  have hbase' : (withClosed "c").isDirectory (Path.ofString "/a") = true := by decide +kernel
  have hsplit : Pattern.split "*.t".toList = ([], some "*.t".toList) := by decide +kernel
  have hglob : Glob.parse "*.t".toList = .ok [.star, .literal '.', .literal 't'] := by
    simp [Glob.parse, Glob.readTokens, Glob.Draft.push, Glob.Draft.finish]
  obtain ⟨hfiles, -, hfails⟩ :=
    expandPattern_of_wildcard hhidden hbase hsplit hglob (by simp [cut])
  obtain ⟨-, hfirst, -⟩ :=
    expandPattern_of_wildcard hshown hbase' hsplit hglob (by simp [cut])
  obtain ⟨files, hfiles, -, hmem⟩ := hfiles fun names e h => by
    obtain ⟨e', he'⟩ := hfails ⟨names, e, h⟩
    rw [hfound] at he'
    cases he'
  rw [hroot] at hmem hfirst
  rw [hfound] at hfiles
  cases hfiles
  obtain ⟨names, hfault, -⟩ := (hfirst _).1 expandPattern_star_closed
  refine ⟨⟨hfound, fun p => ?_⟩, expandPattern_star_closed, names, hfault⟩
  rw [← hmem, List.mem_singleton]

end StyleGuide
