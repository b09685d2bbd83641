import Mathlib.Tactic.Common
import StyleGuide.Proofs.Component.Alignment
import StyleGuide.Proofs.Component.Split
import StyleGuide.Proofs.Config.BaseDirectory
import StyleGuide.Proofs.FileSystem.LinkFree
import StyleGuide.Proofs.FileSystem.Shape
import StyleGuide.Proofs.Glob.Prefix

/-!
# Searching only below the plain part of a pattern

The search for the files of a pattern starts below its plain segments. Without links this finds what
a search of the whole base directory finds for the whole pattern as one glob.

## Main results

* `expandPattern_eq_filter_walk`: the expansion is a part of the walk through the base directory.
-/

namespace StyleGuide

open FileSystem Glob

variable {fs : FileSystem} {pattern : String} {base : Path} {files : List Path}

/-! ## The names below the directory to search -/

section Names

variable {upper : Path} {place : Place} {front : List Bytes}

/-- The files that are found, by the names below the directory to search. -/
lemma exists_names_of_filesBelow (hfs : fs.WellFormed) (hlinks : fs.LinkFree)
    (hplace : fs.resolve upper = .ok place) (hfront : ∀ n ∈ front, Path.IsName n) {glob : Glob}
    {dotted : List Glob}
    (h : (if fs.isDirectory (upper.below front) then filesBelow fs (upper.below front) glob dotted
      else .ok []) = .ok files) :
    ∃ found : List (List Bytes),
      files = found.map (upper.below front).below ∧ found.Pairwise (· < ·) ∧
      ∀ names, names ∈ found ↔
        (names ≠ [] ∧ (∀ n ∈ names, Pattern.allows dotted n = true) ∧
          ∃ content, fs.entry? (place ++ front ++ names) = some (.file content)) ∧
        glob.isMatch (joinWith Path.slash names) = true := by
  have hiff := hlinks.isDirectory_below_iff hfs hplace hfront
  by_cases hdir : fs.isDirectory (upper.below front) = true
  · rw [if_pos hdir] at h
    obtain ⟨found, hwalk, rfl⟩ := exists_walk_of_filesBelow h
    have hroot := hlinks.resolve_below hfs hplace (hiff.1 hdir)
    obtain ⟨hsorted, hmem⟩ := hlinks.mem_walk_iff hfs hroot (hiff.1 hdir) hwalk
    refine ⟨_, rfl, hsorted.filter _, fun names => ?_⟩
    rw [List.mem_filter, hmem]
  · rw [if_neg hdir] at h
    cases h
    refine ⟨[], rfl, .nil, fun names => ?_⟩
    simp only [List.not_mem_nil, false_iff]
    rintro ⟨⟨hne, -, content, hentry⟩, -⟩
    exact hdir (hiff.2 (entry?_of_append hfs hne hentry))

/-- A pattern without wildcards finds its file, with no names below. -/
lemma exists_names_of_isFile (hfs : fs.WellFormed) (hlinks : fs.LinkFree)
    (hplace : fs.resolve upper = .ok place) (hfront : ∀ n ∈ front, Path.IsName n)
    (h : (if fs.isFile (upper.below front) then [upper.below front] else []) = files) :
    ∃ found : List (List Bytes),
      files = found.map (upper.below front).below ∧ found.Pairwise (· < ·) ∧
      ∀ names, names ∈ found ↔ names = [] ∧
        ∃ content, fs.entry? (place ++ front ++ names) = some (.file content) := by
  have hiff := hlinks.isFile_below_iff hfs hplace hfront
  by_cases hfile : fs.isFile (upper.below front) = true
  · rw [if_pos hfile] at h
    subst h
    refine ⟨[[]], rfl, List.pairwise_singleton _ _, fun names => ?_⟩
    rw [List.mem_singleton]
    exact ⟨fun hnames => ⟨hnames, by simpa [hnames] using hiff.1 hfile⟩, And.left⟩
  · rw [if_neg hfile] at h
    subst h
    refine ⟨[], rfl, .nil, fun names => ?_⟩
    simp only [List.not_mem_nil, false_iff]
    rintro ⟨rfl, hentry⟩
    exact hfile (hiff.2 (by simpa using hentry))

/-- Names below a directory, and names below an upper one that go on with them. -/
lemma filter_eq_map_append (front : List Bytes) {all found : List (List Bytes)}
    {keep : List Bytes → Bool} (hall : all.Pairwise (· < ·)) (hfound : found.Pairwise (· < ·))
    (hmem : ∀ names, (names ∈ all ∧ keep names = true) ↔ ∃ back ∈ found, front ++ back = names) :
    all.filter keep = found.map (front ++ ·) := by
  refine List.Pairwise.eq_of_mem_iff (hall.filter keep) ?_ fun names => ?_
  · exact List.pairwise_map.2 (hfound.imp List.append_left_lt)
  · rw [List.mem_filter, List.mem_map]
    exact hmem names

/-- What is found below the directory to search is what a walk from above finds, where a glob for
the whole way matches below that directory what is found there. -/
lemma map_below_eq_filter_walk (matched : List Bytes → Prop) (hfs : fs.WellFormed)
    {all found : List (List Bytes)} (hall : all.Pairwise (· < ·))
    (hmem : ∀ names, names ∈ all ↔
      names ≠ [] ∧ ∃ content, fs.entry? (place ++ names) = some (.file content))
    (hfound : found.Pairwise (· < ·)) {dotted : List Glob}
    (hmem' : ∀ back, back ∈ found ↔ matched back ∧
      (∃ content, fs.entry? (place ++ front ++ back) = some (.file content)) ∧
      ∀ n ∈ back, Pattern.allows dotted n = true)
    (hne : ∀ back, matched back → front ++ back ≠ []) {whole : Glob}
    (hwhole : ∀ names, names ≠ [] → (∀ n ∈ names, Path.slash ∉ n) →
      (whole.isMatch (joinWith Path.slash names) = true ↔
        ∃ back, names = front ++ back ∧ matched back)) :
    found.map (upper.below front).below =
      (all.filter fun names => whole.isMatch (joinWith Path.slash names) &&
        (names.drop front.length).all (Pattern.allows dotted)).map upper.below := by
  rw [filter_eq_map_append front hall hfound, List.map_map]
  · exact List.map_congr_left fun names _ => (Path.below_append upper front names).symm
  intro names
  simp only [hmem, hmem', Bool.and_eq_true, List.all_eq_true]
  constructor
  · rintro ⟨⟨hnames, content, hentry⟩, hmatch, hallowed⟩
    have hslash : ∀ n ∈ names, Path.slash ∉ n := fun n hn =>
      (hfs.isFileName_of_entry hentry n (List.mem_append_right _ hn)).no_slash
    obtain ⟨back, rfl, hback⟩ := (hwhole names hnames hslash).1 hmatch
    rw [List.drop_left] at hallowed
    exact ⟨back, ⟨hback, ⟨content, by simpa using hentry⟩, hallowed⟩, rfl⟩
  · rintro ⟨back, ⟨hback, ⟨content, hentry⟩, hallowed⟩, rfl⟩
    rw [List.append_assoc] at hentry
    have hslash : ∀ n ∈ front ++ back, Path.slash ∉ n := fun n hn =>
      (hfs.isFileName_of_entry hentry n (List.mem_append_right _ hn)).no_slash
    refine ⟨⟨hne back hback, content, hentry⟩, ?_, ?_⟩
    · exact (hwhole _ (hne back hback) hslash).2 ⟨back, rfl, hback⟩
    · rwa [List.drop_left]

end Names

/-! ## Searching the whole base directory -/

section Whole

variable {text : List Char}

/-- Whether the segments in front of the first wildcard name files and stand for themselves in a
glob. -/
def Pattern.IsPlain (text : List Char) : Prop :=
  ∀ s ∈ Pattern.literalSegments text, IsVerbatim s ∧ s ≠ [] ∧ s ≠ ['.'] ∧ s ≠ ['.', '.']

lemma Pattern.not_mem_of_mem_literalSegments {s : List Char}
    (hs : s ∈ Pattern.literalSegments text) : '/' ∉ s := fun hslash => by
  simpa using not_mem_of_mem_cut _ (List.takeWhile_subset _ hs) hslash

lemma Pattern.IsPlain.isName (h : Pattern.IsPlain text) :
    ∀ n ∈ (Pattern.literalSegments text).map Utf8.encodeChars, Path.IsName n := by
  intro n hn
  obtain ⟨s, hs, rfl⟩ := List.mem_map.1 hn
  obtain ⟨-, hne, hdot, hparent⟩ := h s hs
  exact Path.isName_encodeChars (Pattern.not_mem_of_mem_literalSegments hs) hne hdot hparent

lemma Pattern.IsPlain.verbatim (h : Pattern.IsPlain text) :
    ∀ s ∈ Pattern.literalSegments text, IsVerbatim s ∧ s ≠ [] ∧ '/' ∉ s := fun s hs =>
  ⟨(h s hs).1, (h s hs).2.1, Pattern.not_mem_of_mem_literalSegments hs⟩

/-- The directory to search is the one that the plain segments name. -/
lemma Pattern.IsPlain.absolutize (h : Pattern.IsPlain text) (base : Path) :
    base.absolutize ⟨Utf8.encodeChars (Pattern.split text).1⟩ =
      base.normalize.below ((Pattern.literalSegments text).map Utf8.encodeChars) := by
  rw [Pattern.split_eq, Path.encodeChars_joinWith, Path.absolutize_joinWith base h.isName]

/-- Without wildcards, a pattern is a glob for the file that it names. -/
lemma Pattern.IsPlain.exists_parse_of_none (h : Pattern.IsPlain text)
    (hglob : Pattern.globSegments text = []) :
    ∃ whole, Glob.parse text = .ok whole ∧
      ∀ names, names ≠ [] → (∀ n ∈ names, Path.slash ∉ n) →
        (whole.isMatch (joinWith Path.slash names) = true ↔
          names = (Pattern.literalSegments text).map Utf8.encodeChars) := by
  have hall := Pattern.literalSegments_eq_cut hglob
  obtain ⟨whole, hwhole, hmatch⟩ :=
    exists_parse_verbatim h.verbatim (hall ▸ cut_ne_nil _ _)
  have htext : joinWith '/' (Pattern.literalSegments text) = text := by
    rw [hall, joinWith_cut]
  rw [htext] at hwhole
  exact ⟨whole, hwhole, hmatch⟩

/-- With a wildcard, a pattern is a glob that matches below its plain segments what its rest
matches alone. -/
lemma Pattern.IsPlain.exists_parse_of_ne_nil (h : Pattern.IsPlain text)
    (hglob : Pattern.globSegments text ≠ []) (hlast : text.getLast? ≠ some '/') {g : Glob}
    (hg : Glob.parse (joinWith '/' (Pattern.globSegments text)) = .ok g) :
    ∃ whole, Glob.parse text = .ok whole ∧
      ∀ names, names ≠ [] → (∀ n ∈ names, Path.slash ∉ n) →
        (whole.isMatch (joinWith Path.slash names) = true ↔
          ∃ back, back ≠ [] ∧
            names = (Pattern.literalSegments text).map Utf8.encodeChars ++ back ∧
            g.isMatch (joinWith Path.slash back) = true) := by
  have htext : joinWith '/' (Pattern.literalSegments text ++
      [joinWith '/' (Pattern.globSegments text)]) = text := by
    rw [joinWith_append_joinWith hglob, Pattern.literalSegments_append_globSegments, joinWith_cut]
  have hne := Pattern.joinWith_globSegments_ne_nil hglob
  obtain ⟨-, hend⟩ := joinWith_concat_ne_nil '/' (Pattern.literalSegments text) hne
  rw [htext] at hend
  obtain ⟨whole, hwhole, hmatch⟩ := exists_parse_prefix h.verbatim hne (hend ▸ hlast) hg
  rw [htext] at hwhole
  exact ⟨whole, hwhole, hmatch⟩

variable {place : Place} {all : List (List Bytes)} {glob : Glob} {dotted : List Glob}

/-- Without wildcards, the file that is named is the one that the pattern matches as a glob. -/
lemma exists_filter_of_isFile (hfs : fs.WellFormed) (hlinks : fs.LinkFree)
    (hplace : fs.resolve base = .ok place) (hall : all.Pairwise (· < ·))
    (hmem : ∀ names, names ∈ all ↔
      names ≠ [] ∧ ∃ content, fs.entry? (place ++ names) = some (.file content))
    (hplain : Pattern.IsPlain text) (hglob : Pattern.globSegments text = [])
    (h : (if fs.isFile (base.below ((Pattern.literalSegments text).map Utf8.encodeChars)) then
      [base.below ((Pattern.literalSegments text).map Utf8.encodeChars)] else []) = files) :
    ∃ whole, Glob.parse text = .ok whole ∧
      files = (all.filter fun names => whole.isMatch (joinWith Path.slash names) &&
        (names.drop (Pattern.literalSegments text).length).all
          (Pattern.allows [])).map base.below := by
  obtain ⟨whole, hwhole, hmatch⟩ := hplain.exists_parse_of_none hglob
  obtain ⟨found, rfl, hfound, hmem'⟩ :=
    exists_names_of_isFile hfs hlinks hplace hplain.isName h
  refine ⟨whole, hwhole, ?_⟩
  rw [← List.length_map Utf8.encodeChars]
  refine map_below_eq_filter_walk (· = []) hfs hall hmem hfound
    (fun back => ?_) (fun back hback => ?_) (fun names hnames hslashes => ?_)
  · rw [hmem']
    constructor
    · rintro ⟨rfl, hentry⟩
      exact ⟨rfl, hentry, by simp⟩
    · rintro ⟨rfl, hentry, -⟩
      exact ⟨rfl, hentry⟩
  · have hliteral : Pattern.literalSegments text ≠ [] := by
      rw [Pattern.literalSegments_eq_cut hglob]
      exact cut_ne_nil _ _
    simpa [hback] using hliteral
  · simpa using hmatch names hnames hslashes

/-- With a wildcard, the files found below the plain segments are those that the pattern matches as
one glob. -/
lemma exists_filter_of_filesBelow (hfs : fs.WellFormed) (hlinks : fs.LinkFree)
    (hplace : fs.resolve base = .ok place) (hall : all.Pairwise (· < ·))
    (hmem : ∀ names, names ∈ all ↔
      names ≠ [] ∧ ∃ content, fs.entry? (place ++ names) = some (.file content))
    (hplain : Pattern.IsPlain text) (hglob : Pattern.globSegments text ≠ [])
    (hlast : text.getLast? ≠ some '/')
    (hg : Glob.parse (joinWith '/' (Pattern.globSegments text)) = .ok glob)
    (h : (if fs.isDirectory (base.below ((Pattern.literalSegments text).map Utf8.encodeChars)) then
      filesBelow fs (base.below ((Pattern.literalSegments text).map Utf8.encodeChars)) glob dotted
      else .ok []) = .ok files) :
    ∃ whole, Glob.parse text = .ok whole ∧
      files = (all.filter fun names => whole.isMatch (joinWith Path.slash names) &&
        (names.drop (Pattern.literalSegments text).length).all
          (Pattern.allows dotted)).map base.below := by
  obtain ⟨whole, hwhole, hmatch⟩ := hplain.exists_parse_of_ne_nil hglob hlast hg
  obtain ⟨found, rfl, hfound, hmem'⟩ :=
    exists_names_of_filesBelow hfs hlinks hplace hplain.isName h
  refine ⟨whole, hwhole, ?_⟩
  rw [← List.length_map Utf8.encodeChars]
  refine map_below_eq_filter_walk
    (fun back => back ≠ [] ∧ glob.isMatch (joinWith Path.slash back) = true) hfs hall hmem hfound
    (fun back => ?_) (fun back hback => ?_) (fun names hnames hslashes => ?_)
  · rw [hmem']
    constructor
    · rintro ⟨⟨hne, hallowed, hentry⟩, hmatched⟩
      exact ⟨⟨hne, hmatched⟩, hentry, hallowed⟩
    · rintro ⟨⟨hne, hmatched⟩, hentry, hallowed⟩
      exact ⟨⟨hne, hallowed, hentry⟩, hmatched⟩
  · simp [hback.1]
  · rw [hmatch names hnames hslashes]
    exact exists_congr fun back => and_left_comm

end Whole

/-- Where everything could be read, the whole base directory could be walked through. A walk that
can be made as things are gives the same. -/
lemma exists_walk_opened (hfs : fs.WellFormed) (hlinks : fs.LinkFree) {place : Place}
    (hplace : fs.resolve base = .ok place) (hdir : fs.entry? place = some .directory) :
    ∃ all, fs.opened.walk (fun _ => true) base = .ok all ∧
      (∀ found, fs.walk (fun _ => true) base = .ok found → found = all) ∧
      all.Pairwise (· < ·) ∧ ∀ names, names ∈ all ↔
        names ≠ [] ∧ ∃ content, fs.entry? (place ++ names) = some (.file content) := by
  have hopened : fs.opened.resolve base = .ok place := (sameEntries_opened fs).resolve base ▸ hplace
  have hbase : fs.opened.isDirectory base = true := isDirectory_iff.2 ⟨place, hopened, hdir⟩
  have hlinks' : fs.opened.LinkFree := hlinks
  obtain ⟨all, hwalk, -⟩ := @walk_eq_ok fs.opened (fun _ => true) base hfs.opened hbase
    fun _ _ => hlinks'.not_fault hfs.opened rfl
  obtain ⟨hall, hmem⟩ := hlinks'.mem_walk_iff hfs.opened hopened hdir hwalk
  simp only [implies_true, true_and] at hmem
  refine ⟨all, hwalk, fun found hfound => ?_, hall, hmem⟩
  obtain ⟨hsorted, hmem'⟩ := hlinks.mem_walk_iff hfs hplace hdir hfound
  simp only [implies_true, true_and] at hmem'
  exact hsorted.eq_of_mem_iff hall fun names => (hmem' names).trans (hmem names).symm

/-- A base directory is searched under its normal form. Where that is empty, nothing can be
searched. -/
lemma expandPattern_eq_filter_walk_of_normalize (hfs : fs.WellFormed) (hlinks : fs.LinkFree)
    (hnormal : base.normalize.bytes ≠ []) (hblank : allBlank pattern.toList = false)
    (hlast : pattern.toList.getLast? ≠ some '/') (hplain : Pattern.IsPlain pattern.toList)
    (h : expandPattern fs pattern base = .ok files) :
    ∃ glob dotted found, Glob.parse pattern.toList = .ok glob ∧
      (Pattern.dotSegments ((Pattern.split pattern.toList).2.getD [])).mapM (readGlob pattern) =
        .ok dotted ∧
      fs.opened.walk (fun _ => true) base = .ok found ∧
      (∀ found', fs.walk (fun _ => true) base = .ok found' → found' = found) ∧
      files = (found.filter fun names => glob.isMatch (joinWith Path.slash names) &&
        (names.drop (Pattern.literalSegments pattern.toList).length).all
          (Pattern.allows dotted)).map base.normalize.below := by
  have hbase := isDirectory_of_expandPattern hblank h
  obtain ⟨place, hplace, hdir⟩ := isDirectory_iff.1 hbase
  have hplace' := hlinks.resolve_normalize hfs hnormal hplace
  obtain ⟨all, hwalk, hsame, hall, hmem⟩ := exists_walk_opened hfs hlinks hplace hdir
  have hroot := hplain.absolutize base
  have hsplit := Pattern.split_eq pattern.toList
  by_cases hglob : Pattern.globSegments pattern.toList = []
  · rw [hglob, if_pos rfl] at hsplit
    rw [expandPattern_eq_of_none hblank hbase hsplit] at h
    rw [hsplit] at hroot
    rw [hroot] at h
    obtain ⟨whole, hwhole, hfiles⟩ := exists_filter_of_isFile hfs hlinks hplace' hall hmem hplain
      hglob (Except.ok.inj h)
    exact ⟨whole, [], all, hwhole, by rw [hsplit]; rfl, hwalk, hsame, hfiles⟩
  · rw [if_neg hglob] at hsplit
    obtain ⟨glob, dotted, hg, hdotted⟩ := exists_globs_of_expandPattern hsplit h
    rw [expandPattern_eq hbase hsplit hg hdotted] at h
    rw [hsplit] at hroot
    rw [hroot] at h
    obtain ⟨whole, hwhole, hfiles⟩ := exists_filter_of_filesBelow hfs hlinks hplace' hall hmem
      hplain hglob hlast hg h
    exact ⟨whole, dotted, all, hwhole, by rw [hsplit]; exact hdotted, hwalk, hsame, hfiles⟩

/-- Without links, the expansion of a pattern is the part of the walk through the whole base
directory that the pattern as one glob matches, hidden names below its plain segments left out as in
the expansion. That walk reads directories which the search below the plain segments does not come
to, so it is made where everything may be read; where it can be made as things are, it gives the
same. -/
theorem expandPattern_eq_filter_walk (hfs : fs.WellFormed) (hlinks : fs.LinkFree) (c : Config)
    (hblank : allBlank pattern.toList = false) (hlast : pattern.toList.getLast? ≠ some '/')
    (hplain : Pattern.IsPlain pattern.toList)
    (h : expandPattern fs pattern (c.baseDirectory fs) = .ok files) :
    ∃ glob dotted found, Glob.parse pattern.toList = .ok glob ∧
      (Pattern.dotSegments ((Pattern.split pattern.toList).2.getD [])).mapM (readGlob pattern) =
        .ok dotted ∧
      fs.opened.walk (fun _ => true) (c.baseDirectory fs) = .ok found ∧
      (∀ found', fs.walk (fun _ => true) (c.baseDirectory fs) = .ok found' → found' = found) ∧
      files = (found.filter fun names => glob.isMatch (joinWith Path.slash names) &&
        (names.drop (Pattern.literalSegments pattern.toList).length).all
          (Pattern.allows dotted)).map (c.baseDirectory fs).below := by
  have hbase := isDirectory_of_expandPattern hblank h
  obtain ⟨place, hplace, -⟩ := isDirectory_iff.1 hbase
  have hne := bytes_ne_nil_of_target (resolve_eq_ok_iff.1 hplace)
  have hnormal := c.normalize_baseDirectory fs
  have hnarrow := expandPattern_eq_filter_walk_of_normalize hfs hlinks (hnormal.symm ▸ hne) hblank
    hlast hplain h
  rwa [hnormal] at hnarrow

/-- A directory with a file beside it and a file in it. -/
def nestedFiles : FileSystem where
  entries := [([Utf8.encode "b.t"], .file []), ([Utf8.encode "a"], .directory),
    ([Utf8.encode "a", Utf8.encode "b.t"], .file [])]
  current := []

/-- The search for `a/*.t` finds below `a` what the whole pattern matches. -/
theorem expandPattern_eq_filter_walk_nested :
    expandPattern nestedFiles "a/*.t" (Config.standard.baseDirectory nestedFiles) =
      .ok [Path.ofString "/a/b.t"] ∧
    ∃ glob dotted found, Glob.parse "a/*.t".toList = .ok glob ∧
      (Pattern.dotSegments ((Pattern.split "a/*.t".toList).2.getD [])).mapM (readGlob "a/*.t") =
        .ok dotted ∧
      nestedFiles.opened.walk (fun _ => true) (Config.standard.baseDirectory nestedFiles) =
        .ok found ∧
      (∀ found', nestedFiles.walk (fun _ => true) (Config.standard.baseDirectory nestedFiles) =
        .ok found' → found' = found) ∧
      [Path.ofString "/a/b.t"] =
        (found.filter fun names => glob.isMatch (joinWith Path.slash names) &&
          (names.drop (Pattern.literalSegments "a/*.t".toList).length).all
            (Pattern.allows dotted)).map (Config.standard.baseDirectory nestedFiles).below := by
  have hlinks : nestedFiles.LinkFree := by decide +kernel
  have hfs : nestedFiles.WellFormed := ⟨by decide +kernel, by decide +kernel, hlinks.link_no_nul⟩
  have hliteral : Pattern.literalSegments "a/*.t".toList = [['a']] := by decide +kernel
  have hplain : Pattern.IsPlain "a/*.t".toList := by
    rw [Pattern.IsPlain, hliteral, List.forall_mem_singleton]
    decide
  have hfound : expandPattern nestedFiles "a/*.t" (Config.standard.baseDirectory nestedFiles) =
      .ok [Path.ofString "/a/b.t"] := by
    decide +kernel
  exact ⟨hfound, expandPattern_eq_filter_walk hfs hlinks Config.standard (by decide +kernel)
    (by decide +kernel) hplain hfound⟩

end StyleGuide
