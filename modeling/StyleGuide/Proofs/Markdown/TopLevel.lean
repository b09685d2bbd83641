import Mathlib.Tactic.Common
import StyleGuide.Proofs.Markdown.Place
import StyleGuide.Proofs.Text.Cut

/-!
# Blocks outside of all containers

While no quote, list or footnote is open, and lines do not start with a mark of one, a document is
read line by line: blank lines are skipped, a line of words between blank lines is a paragraph, and
a fence goes on to the line that closes it, whatever stands between.

## Main definitions

* `isFlush`: whether a character stands at the start of a line without opening a container.
* `gap`: the blank lines behind a block, and what is read next.
* `Fences`, `fenced`: whether a number of backticks can stand around a text, and the text with them.

## Main results

* `Outline.openAll_of_isFlush`: no container is opened in front of such a character.
* `fencedCode_append`: the text between two lines of backticks is the code.
* `exists_codeBlocksFrom_gap`, `exists_codeBlocksFrom_words`, `exists_codeBlocksFrom_fenced`: the
  blocks of code of a document that starts with blank lines, with a line of words, or with a text in
  a fence.
-/

namespace StyleGuide.Markdown

/-! ## The start of a line -/

/-- Whether a character stands at the start of a line without opening a container: it is no space,
and no mark of a quote, of an item or of a footnote starts with it. -/
def isFlush (c : Char) : Bool :=
  !isSpace c && c != '>' && c != '[' && c != '-' && c != '+' && c != '*' && !c.isDigit

variable {c : Char} {cs rest : List Char}

lemma ne_of_isAlpha {d : Char} (h : c.isAlpha = true) (hd : d.isAlpha = false) : c ≠ d := by
  rintro rfl
  rw [h] at hd
  cases hd

lemma endsLine_of_isAlpha (h : c.isAlpha = true) : endsLine c = false := by
  simp [endsLine, ne_of_isAlpha h]

lemma isFlush_of_isAlpha (h : c.isAlpha = true) : isFlush c = true := by
  have hdigit : c.isDigit = false := by
    delta Char.isAlpha Char.isUpper Char.isLower Char.isDigit at h
    delta Char.isDigit
    grind
  simp [isFlush, isSpace, hdigit, ne_of_isAlpha h]

@[simp] lemma Cursor.ofLine_rest (cs : List Char) : (Cursor.ofLine cs).rest = cs := rfl

/-- In front of such a character there is no space to use up. -/
lemma takeSpaces_ofLine (h : isFlush c = true) :
    (Cursor.ofLine (c :: cs)).takeSpaces 4 = (4, .ofLine (c :: cs)) := by
  have hspace : c ≠ ' ' ∧ c ≠ '\t' := by simp_all [isFlush, isSpace]
  simp [Cursor.takeSpaces, Cursor.ofLine, Cursor.spaces, hspace]

lemma indentUpTo_ofLine (h : isFlush c = true) :
    (Cursor.ofLine (c :: cs)).indentUpTo 4 = (0, .ofLine (c :: cs)) := by
  rw [Cursor.indentUpTo, takeSpaces_ofLine h]

lemma Marker.read?_of_isFlush (h : isFlush c = true) : Marker.read? (c :: cs) = none := by
  have hdigits : (c :: cs).takeWhile Char.isDigit = [] := by simp_all [isFlush]
  have hbullet : ¬(c = '-' ∨ c = '+' ∨ c = '*') := by simp_all [isFlush]
  simp only [Marker.read?, hdigits, if_neg hbullet]
  simp

lemma blankLine?_cons (hblank : isInlineBlank c = false) (hend : endsLine c = false) :
    blankLine? (c :: cs) = none := by
  rw [blankLine?, List.dropWhile_cons_of_neg (by simp [hblank])]
  unfold lineEnd?
  split
  · simp_all
  · simp_all [endsLine]
  · simp_all

namespace Outline

variable {o : Outline}

/-- No container is opened in front of such a character. -/
theorem openAll_of_isFlush (o : Outline) (h : isFlush c = true) :
    o.openAll (.ofLine (c :: cs)) = (o, .ofLine (c :: cs), false) := by
  have hfootnote : footnoteMark? (c :: cs) = none := by
    unfold footnoteMark?
    split
    · simp_all [isFlush]
    · rfl
  have hmarker : (Cursor.ofLine (c :: cs)).marker? = none := by
    simp only [Cursor.marker?, Cursor.ofLine, Marker.read?_of_isFlush h]
    split <;> rfl
  have hquote : (Cursor.ofLine (c :: cs)).quoteMark? = none := by
    have hne : c ≠ '>' := by simp_all [isFlush]
    simp [Cursor.quoteMark?, Cursor.takeChar, Cursor.ofLine, hne]
  unfold openAll
  simp only [indentUpTo_ofLine h, Cursor.ofLine_rest, hfootnote, hmarker, hquote]
  rfl

/-- Nothing is open. -/
def IsFlat (o : Outline) : Prop := o.spine = []

lemma IsFlat.closeList (h : o.IsFlat) : o.closeList.IsFlat := by
  simp_all [IsFlat, Outline.closeList, closeEmptyItem]

lemma IsFlat.afterBlank (h : o.IsFlat) : o.afterBlank.IsFlat := by
  simp_all [IsFlat, Outline.afterBlank]

lemma IsFlat.containers_eq (h : o.IsFlat) : o.containers = [] := by
  rw [Outline.containers, h, List.reverse_nil]

/-- With nothing open, what is read in a line that opens nothing is a blank line or a block of
lines. -/
lemma step_of_isFlush (ho : o.IsFlat) (h : isFlush c = true) :
    o.step (c :: cs) =
      match blankLine? (c :: cs) with
      | some rest => (none, o.afterBlank, rest)
      | none => o.closeList.leaf (.ofLine (c :: cs)) := by
  have hkeep : o.keep 0 = o := by
    rw [keep, ho]
    rfl
  unfold step
  simp only [ho.containers_eq, goOn, List.length_nil, hkeep, openAll_of_isFlush o h]
  rfl

lemma isRule_of_isFlush (h : isFlush c = true) (hc : c ≠ '_') : isRule (c :: cs) = false := by
  unfold isRule
  split
  · rfl
  next d more hline =>
    rw [lineText, List.takeWhile_cons] at hline
    split at hline
    · cases hline
      simp_all [isFlush]
    · cases hline

lemma isHeading_eq_false (hc : c ≠ '#') : isHeading (c :: cs) = false := by
  simp [isHeading, hc]

/-- A block of lines that starts with such a character is a block of code or a paragraph. -/
lemma leaf_of_isFlush (o : Outline) (h : isFlush c = true) (hhtml : c ≠ '<') (hrule : c ≠ '_')
    (hheading : c ≠ '#') :
    o.leaf (.ofLine (c :: cs)) =
      match fence? 0 (c :: cs) with
      | some (f, rest) =>
        let code := fencedCode o.containers f (behindLineFeed rest)
        (some ⟨infoString (rest.takeWhile (· != '\n')), code.text, c :: cs, code.stop⟩, o,
          code.rest)
      | none => (none, o, definitions o.containers (c :: cs)) := by
  have hstart : startsHtml (c :: cs) = false := by
    unfold startsHtml
    split
    · simp_all
    · rfl
  unfold leaf
  simp only [indentUpTo_ofLine h, Cursor.ofLine_rest, hstart, isRule_of_isFlush h hrule,
    isHeading_eq_false hheading]
  cases fence? 0 (c :: cs) with
  | none => simp [hhtml]
  | some fence => simp [hhtml]

end Outline

@[simp] lemma goOnAll_nil (cs : List Char) : goOnAll [] cs = (true, .ofLine cs) := rfl

/-! ## Blank lines -/

variable {line next : List Char} {lines : Nat}

/-- What stands behind a block: lines without anything on them, and then what is read next. -/
def gap (lines : Nat) (next : List Char) : List Char := List.replicate lines '\n' ++ next

/-- Whether a block ends in front of a gap. -/
def SetsApart (lines : Nat) (next : List Char) : Prop := next = [] ∨ lines ≠ 0

lemma gap_cases (h : SetsApart lines next) :
    gap lines next = [] ∧ gap (lines - 1) next = [] ∨
      gap lines next = '\n' :: gap (lines - 1) next := by
  cases lines with
  | zero =>
    have hnext : next = [] := h.resolve_right (· rfl)
    exact .inl ⟨hnext, hnext⟩
  | succ lines => exact .inr rfl

namespace Outline

variable {o : Outline}

lemma step_blank (ho : o.IsFlat) (rest : List Char) :
    o.step ('\n' :: rest) = (none, o.afterBlank, rest) := by
  rw [step_of_isFlush ho rfl]
  rfl

end Outline

/-- No code is in blank lines. -/
theorem exists_codeBlocksFrom_gap {o : Outline} (ho : o.IsFlat) (lines : Nat) (next : List Char) :
    ∃ o' : Outline, o'.IsFlat ∧ codeBlocksFrom o (gap lines next) = codeBlocksFrom o' next := by
  induction lines generalizing o with
  | zero => exact ⟨o, ho, rfl⟩
  | succ lines ih =>
    obtain ⟨o', ho', heq⟩ := ih ho.afterBlank
    refine ⟨o', ho', ?_⟩
    change codeBlocksFrom o ('\n' :: gap lines next) = _
    rw [codeBlocksFrom_eq o (List.cons_ne_nil _ _), Outline.step_blank ho]
    exact heq

/-! ## Lines of words -/

/-- A line of words: it starts with a letter and has only letters and spaces. -/
structure IsWordLine (line : List Char) : Prop where
  head : ∃ c cs, line = c :: cs ∧ c.isAlpha = true
  mem : ∀ c ∈ line, c.isAlpha = true ∨ c = ' '

lemma IsWordLine.ne (h : IsWordLine line) (hc : c ∈ line) {d : Char}
    (hd : d.isAlpha = false) (hspace : d ≠ ' ') : c ≠ d := by
  rcases h.mem c hc with halpha | rfl
  · exact ne_of_isAlpha halpha hd
  · exact hspace.symm

lemma IsWordLine.not_endsLine (h : IsWordLine line) :
    ∀ c ∈ line, (!endsLine c) = true := by
  intro c hc
  simp [endsLine, h.ne hc]

/-- A paragraph ends behind its first line where the next one is blank. -/
lemma paragraphLines_gap (h : SetsApart lines next) :
    paragraphLines [] (gap lines next) = gap lines next := by
  have hend : paragraphEnd? [] (gap lines next) = some (gap lines next) := by
    rcases gap_cases h with ⟨hnil, -⟩ | hgap
    · rw [hnil]
      rfl
    · rw [hgap]
      simp only [paragraphEnd?, goOnAll_nil, takeSpaces_ofLine (c := '\n') rfl]
      rfl
  rw [paragraphLines, hend]

lemma behindLine_append (h : IsWordLine line) (hparts : SetsApart lines next) :
    behindLine (line ++ gap lines next) = gap (lines - 1) next := by
  unfold behindLine
  rcases gap_cases hparts with ⟨hnil, hbehind⟩ | hgap
  · rw [hnil, hbehind, List.append_nil, List.dropWhile_eq_nil_iff.2 h.not_endsLine]
  · rw [hgap, dropWhile_append_cons_eq h.not_endsLine rfl]
    rfl

lemma lineText_append (h : IsWordLine line) (hparts : SetsApart lines next) :
    lineText (line ++ gap lines next) = line := by
  unfold lineText
  rcases gap_cases hparts with ⟨hnil, -⟩ | hgap
  · rw [hnil, List.append_nil, List.takeWhile_eq_self_iff.2 h.not_endsLine]
  · rw [hgap, takeWhile_append_cons_eq h.not_endsLine rfl]

/-- A line of words in front of a blank line is a paragraph. -/
lemma definitions_words (h : IsWordLine line) (hparts : SetsApart lines next)
    (hbehind : SetsApart (lines - 1) next) :
    definitions [] (line ++ gap lines next) = gap (lines - 1) next := by
  obtain ⟨c, cs, rfl, hc⟩ := h.head
  have hdefinition : definition? [] (c :: cs ++ gap lines next) = none := by
    unfold definition?
    split
    next hcons =>
      cases hcons
      cases hc
    · rfl
  have htable : table? [] (c :: cs ++ gap lines next) = none := by
    have hpipe : (c :: cs).contains '|' = false := by
      rw [List.contains_eq_mem, decide_eq_false_iff_not]
      exact fun hmem => h.ne hmem (d := '|') rfl (by decide) rfl
    simp only [table?, lineText_append h hparts, hpipe]
    simp
  rw [definitions, hdefinition]
  simp only
  rw [paragraph, htable]
  simp only
  rw [behindLine_append h hparts, paragraphLines_gap hbehind]

/-- No code is in a line of words in front of a blank line. -/
theorem exists_codeBlocksFrom_words {o : Outline} (ho : o.IsFlat) (h : IsWordLine line)
    (hparts : next = [] ∨ 2 ≤ lines) :
    ∃ o' : Outline, o'.IsFlat ∧
      codeBlocksFrom o (line ++ gap lines next) = codeBlocksFrom o' next := by
  have hbehind : SetsApart (lines - 1) next := hparts.imp_right (by omega)
  have hparts : SetsApart lines next := hparts.imp_right (by omega)
  obtain ⟨c, cs, rfl, hc⟩ := h.head
  have hstep : o.step (c :: cs ++ gap lines next) = (none, o.closeList, gap (lines - 1) next) := by
    have hblank : blankLine? (c :: (cs ++ gap lines next)) = none :=
      blankLine?_cons (by simp [isInlineBlank, ne_of_isAlpha hc]) (endsLine_of_isAlpha hc)
    have hfence : fence? 0 (c :: (cs ++ gap lines next)) = none := by
      simp [fence?, ne_of_isAlpha hc]
    rw [List.cons_append, Outline.step_of_isFlush ho (isFlush_of_isAlpha hc), hblank]
    simp only
    rw [Outline.leaf_of_isFlush _ (isFlush_of_isAlpha hc) (ne_of_isAlpha hc rfl)
      (ne_of_isAlpha hc rfl) (ne_of_isAlpha hc rfl), hfence]
    simp only
    rw [ho.closeList.containers_eq, ← List.cons_append, definitions_words h hparts hbehind]
  obtain ⟨o', ho', heq⟩ := exists_codeBlocksFrom_gap ho.closeList (lines - 1) next
  refine ⟨o', ho', ?_⟩
  have hne : c :: cs ++ gap lines next ≠ [] := List.cons_ne_nil _ _
  rw [codeBlocksFrom_eq o hne, hstep]
  exact heq

/-! ## Fences -/

lemma head?_ne_of_atLineEnd (h : atLineEnd cs = true) (hc : endsLine c = false) :
    cs.head? ≠ some c := by
  cases cs with
  | nil => simp
  | cons d cs =>
    rintro ⟨⟩
    rw [atLineEnd, hc] at h
    cases h

/-- Whether lines of `size` backticks can stand around a text: there are three or more, and more
than the text has side by side anywhere. The lines of the text end in line feeds alone. -/
structure Fences (size : Nat) (text : List Char) : Prop where
  three_le : 3 ≤ size
  no_run : ¬ List.replicate size '\x60' <:+: text
  no_return : '\r' ∉ text

lemma Fences.of_infix {size : Nat} {text part : List Char} (h : Fences size text)
    (hpart : part <:+: text) : Fences size part :=
  ⟨h.three_le, fun hrun => h.no_run (hrun.trans hpart), fun hmem => h.no_return (hpart.subset hmem)⟩

variable {size : Nat} {text info after : List Char}

/-- The fence that lines of `size` backticks at the start of a line are. -/
def backticks (size : Nat) : Fence := ⟨'\x60', size, 0⟩

/-- No space is taken from the lines of such a fence. -/
lemma takeSpaces_backticks (size : Nat) (cs : List Char) :
    (Cursor.ofLine cs).takeSpaces (backticks size).indent = (0, .ofLine cs) := rfl

/-- The space in front of a line ends with the line, if not before. -/
lemma exists_takeSpaces_line (n : Nat) (line rest : List Char) :
    ∃ inner, inner <:+ line ∧
      ((Cursor.ofLine (line ++ '\n' :: rest)).takeSpaces n).2.rest = inner ++ '\n' :: rest := by
  obtain ⟨front, hfront, heq⟩ := exists_takeSpaces n (.ofLine (line ++ '\n' :: rest))
  rcases List.append_eq_append_iff.1 heq with ⟨back, rfl, hback⟩ | ⟨inner, rfl, hinner⟩
  · cases back with
    | nil => exact ⟨[], List.nil_suffix, by simpa using hback.symm⟩
    | cons d back =>
      obtain rfl : '\n' = d := (List.cons.inj hback).1
      exact absurd (hfront '\n' (by simp)) (by decide)
  · exact ⟨inner, List.suffix_append _ _, hinner⟩

/-- Nowhere in the text stand enough backticks to close the fence. -/
lemma Fences.length_run_lt (h : Fences size text) :
    (text.takeWhile (· == '\x60')).length < size := by
  by_contra hle
  have hmarks : text.takeWhile (· == '\x60') =
      List.replicate (text.takeWhile (· == '\x60')).length '\x60' :=
    List.eq_replicate_of_mem fun d hd => by simpa using List.mem_takeWhile_imp hd
  have hmarked : List.replicate size '\x60' <+: text.takeWhile (· == '\x60') := by
    rw [hmarks, List.prefix_replicate_iff]
    simpa using hle
  exact h.no_run (hmarked.trans (List.takeWhile_prefix _)).isInfix

/-- A line of the text does not close the fence. -/
lemma closedAt?_line (h : Fences size line) (rest : List Char) :
    (backticks size).closedAt? (.ofLine (line ++ '\n' :: rest)) = none := by
  obtain ⟨inner, hinner, hplace⟩ := exists_takeSpaces_line 4 line rest
  have hrun := (h.of_infix hinner.isInfix).length_run_lt
  have hplaced : (inner ++ '\n' :: rest).takeWhile (· == '\x60') = inner.takeWhile (· == '\x60') :=
    takeWhile_append_cons (by decide) inner rest
  unfold Fence.closedAt?
  simp only [backticks, Nat.sub_zero, hplace, hplaced, if_pos hrun]
  simp

/-- A line of as many backticks closes the fence. -/
lemma closedAt?_backticks (hsize : 0 < size) (hafter : atLineEnd after = true) :
    (backticks size).closedAt? (.ofLine (List.replicate size '\x60' ++ after)) = some after := by
  have htake : (Cursor.ofLine (List.replicate size '\x60' ++ after)).takeSpaces 4 =
      (4, .ofLine (List.replicate size '\x60' ++ after)) := by
    obtain ⟨n, rfl⟩ := Nat.exists_eq_succ_of_ne_zero hsize.ne'
    exact takeSpaces_ofLine rfl
  have hrun : (List.replicate size '\x60' ++ after).takeWhile (· == '\x60') =
      List.replicate size '\x60' := takeWhile_replicate_append (head?_ne_of_atLineEnd hafter rfl)
  have hbehind : ((List.replicate size '\x60' ++ after).dropWhile (· == '\x60')).dropWhile
      (· == ' ') = after := by
    rw [dropWhile_replicate_append (head?_ne_of_atLineEnd hafter rfl)]
    exact dropWhile_replicate_append (n := 0) (x := ' ') (head?_ne_of_atLineEnd hafter rfl)
  unfold Fence.closedAt?
  simp only [backticks, Nat.sub_zero, htake, Cursor.ofLine_rest, hrun, hbehind, hafter]
  simp [hsize.ne']

/-- The place of the line behind a fence that is closed in front of `after`. -/
def behindFence (after : List Char) : List Char := (blankLine? after).getD after

lemma fencedCode_backticks (hsize : 0 < size) (hafter : atLineEnd after = true) :
    fencedCode [] (backticks size) (List.replicate size '\x60' ++ after) =
      ⟨[], after, behindFence after⟩ := by
  rw [fencedCode]
  simp only [goOnAll_nil, takeSpaces_backticks, closedAt?_backticks hsize hafter]
  simp [hsize.ne', behindFence]

lemma forall_ne_of_not_mem (hline : '\n' ∉ line) : ∀ c ∈ line, (c != '\n') = true := by
  rintro c hc
  rw [bne_iff_ne]
  rintro rfl
  exact hline hc

lemma takeWhile_line (hline : '\n' ∉ line) (rest : List Char) :
    (line ++ '\n' :: rest).takeWhile (· != '\n') = line :=
  takeWhile_append_cons_eq (forall_ne_of_not_mem hline) (by decide) rest

lemma behindLineFeed_line (hline : '\n' ∉ line) (rest : List Char) :
    behindLineFeed (line ++ '\n' :: rest) = rest := by
  rw [behindLineFeed, dropWhile_append_cons_eq (forall_ne_of_not_mem hline) (by decide)]
  rfl

/-- A line of the text is code, with its line feed. -/
lemma fencedCode_line (h : Fences size line) (hline : '\n' ∉ line) (rest : List Char) :
    fencedCode [] (backticks size) (line ++ '\n' :: rest) =
      { fencedCode [] (backticks size) rest with
        text := line ++ '\n' :: (fencedCode [] (backticks size) rest).text } := by
  have hcode : codeLine (.ofLine (line ++ '\n' :: rest)) = line ++ ['\n'] := by
    have hlast : line.getLast? ≠ some '\r' := fun hlast => h.no_return (List.mem_of_getLast? hlast)
    simp [codeLine, takeWhile_line hline, hlast, Cursor.ofLine]
  rw [fencedCode]
  simp only [goOnAll_nil, takeSpaces_backticks, closedAt?_line h, Cursor.ofLine_rest,
    behindLineFeed_line hline, hcode]
  have hlt : rest.length < line.length + (rest.length + 1) := by omega
  simp [hlt]

/-- The text between two lines of backticks is the code. -/
theorem fencedCode_append {text : List Char} (h : Fences size text)
    (hafter : atLineEnd after = true) :
    fencedCode [] (backticks size) (text ++ '\n' :: (List.replicate size '\x60' ++ after)) =
      ⟨text ++ ['\n'], after, behindFence after⟩ := by
  by_cases hmem : '\n' ∈ text
  · obtain ⟨line, more, rfl, hline⟩ := List.eq_append_cons_of_mem hmem
    have hfront : Fences size line := h.of_infix (List.prefix_append _ _).isInfix
    have hmore : Fences size more :=
      h.of_infix ((List.suffix_cons _ _).trans (List.suffix_append _ _)).isInfix
    rw [List.append_assoc, List.cons_append, fencedCode_line hfront hline,
      fencedCode_append hmore hafter]
    simp
  · have hsize : 0 < size := Nat.lt_of_lt_of_le (by decide) h.three_le
    rw [fencedCode_line h hmem, fencedCode_backticks hsize hafter]
termination_by text.length

/-! ## Info strings -/

lemma unescape_eq_self (h : ∀ c ∈ info, c.isAlpha = true) : unescape info = info := by
  induction info with
  | nil => simp [unescape]
  | cons c info ih =>
    have hc := h c List.mem_cons_self
    rw [unescape.eq_def]
    simp only [if_neg (ne_of_isAlpha hc (d := '\\') rfl), if_neg (ne_of_isAlpha hc (d := '&') rfl),
      if_neg (ne_of_isAlpha hc (d := '\r') rfl), ih fun d hd => h d (List.mem_cons_of_mem c hd)]

/-- A word of letters is its own info string. -/
lemma infoString_eq_self (h : ∀ c ∈ info, c.isAlpha = true) : infoString info = info := by
  have hinline : info.dropWhile isInlineBlank = info := dropWhile_eq_self fun c hc => by
    simp [isInlineBlank, ne_of_isAlpha (h c hc)]
  have hblank : info.reverse.dropWhile isMarkdownBlank = info.reverse :=
    dropWhile_eq_self fun c hc => by
      have hc := h c (List.mem_reverse.1 hc)
      simp [isMarkdownBlank, isInlineBlank, endsLine, ne_of_isAlpha hc]
  rw [infoString, hinline, hblank, List.reverse_reverse, unescape_eq_self h]

/-! ## Blocks of fenced code -/

/-- A text in a fence of `size` backticks. -/
def fenced (size : Nat) (info text : List Char) : List Char :=
  List.replicate size '\x60' ++ info ++ '\n' :: (text ++ '\n' :: List.replicate size '\x60')

lemma exists_replicate_eq_cons (hsize : 3 ≤ size) :
    ∃ marks, List.replicate size '\x60' = '\x60' :: marks := by
  obtain ⟨n, rfl⟩ := Nat.exists_eq_add_of_le' hsize
  exact ⟨_, rfl⟩

lemma exists_fenced_eq_cons (hsize : 3 ≤ size) (info text : List Char) :
    ∃ more, fenced size info text = '\x60' :: more := by
  obtain ⟨marks, hmarks⟩ := exists_replicate_eq_cons hsize
  exact ⟨_, by rw [fenced, hmarks]; rfl⟩

lemma fence?_fenced (hsize : 3 ≤ size) (hinfo : ∀ c ∈ info, c.isAlpha = true) (rest : List Char) :
    fence? 0 (List.replicate size '\x60' ++ (info ++ '\n' :: rest)) =
      some (backticks size, info ++ '\n' :: rest) := by
  have hhead : (info ++ '\n' :: rest).head? ≠ some '\x60' := by
    cases info with
    | nil => simp
    | cons c info => simpa using ne_of_isAlpha (hinfo c List.mem_cons_self) rfl
  have hrun : (List.replicate size '\x60' ++ (info ++ '\n' :: rest)).takeWhile (· == '\x60') =
      List.replicate size '\x60' := takeWhile_replicate_append hhead
  have hline : '\n' ∉ info := fun hmem => absurd (hinfo _ hmem) (by decide)
  have hmark : '\x60' ∉ info := fun hmem => absurd (hinfo _ hmem) (by decide)
  have hdrop : (List.replicate size '\x60' ++ (info ++ '\n' :: rest)).drop size =
      info ++ '\n' :: rest := List.drop_left' List.length_replicate
  obtain ⟨marks, hmarks⟩ := exists_replicate_eq_cons hsize
  rw [hmarks, List.cons_append] at hrun hdrop ⊢
  rw [← hmarks] at hrun
  simp only [fence?, hrun, List.length_replicate, hdrop, takeWhile_line hline]
  simp [backticks, hmark, hsize]

/-- The block of code of a text in a fence. -/
lemma leaf_fenced {o : Outline} (ho : o.IsFlat) (h : Fences size text)
    (hinfo : ∀ c ∈ info, c.isAlpha = true) (hafter : atLineEnd after = true) :
    o.leaf (.ofLine (fenced size info text ++ after)) =
      (some ⟨info, text ++ ['\n'], fenced size info text ++ after, after⟩, o,
        behindFence after) := by
  have hwhole : fenced size info text ++ after = List.replicate size '\x60' ++
      (info ++ '\n' :: (text ++ '\n' :: (List.replicate size '\x60' ++ after))) := by
    simp [fenced]
  have hfence := fence?_fenced h.three_le hinfo
    (text ++ '\n' :: (List.replicate size '\x60' ++ after))
  have hline : '\n' ∉ info := fun hmem => absurd (hinfo _ hmem) (by decide)
  obtain ⟨more, hmore⟩ := exists_fenced_eq_cons h.three_le info text
  rw [← hwhole, hmore, List.cons_append] at hfence
  rw [hmore, List.cons_append,
    Outline.leaf_of_isFlush o rfl (by decide) (by decide) (by decide), hfence]
  simp only [behindLineFeed_line hline, takeWhile_line hline, ho.containers_eq,
    fencedCode_append h hafter, infoString_eq_self hinfo]

lemma atLineEnd_gap (h : SetsApart lines next) :
    atLineEnd (gap lines next) = true := by
  rcases gap_cases h with ⟨hnil, -⟩ | hgap
  · rw [hnil]
    rfl
  · rw [hgap]
    rfl

lemma behindFence_gap (h : SetsApart lines next) :
    behindFence (gap lines next) = gap (lines - 1) next := by
  rcases gap_cases h with ⟨hnil, hbehind⟩ | hgap
  · rw [hnil, hbehind]
    rfl
  · rw [hgap]
    rfl

/-- A text in a fence is a block of code. -/
theorem exists_codeBlocksFrom_fenced {o : Outline} (ho : o.IsFlat) (h : Fences size text)
    (hinfo : ∀ c ∈ info, c.isAlpha = true) (hparts : SetsApart lines next) :
    ∃ o' : Outline, o'.IsFlat ∧
      codeBlocksFrom o (fenced size info text ++ gap lines next) =
        ⟨info, text ++ ['\n'], fenced size info text ++ gap lines next, gap lines next⟩ ::
          codeBlocksFrom o' next := by
  obtain ⟨more, hmore⟩ := exists_fenced_eq_cons h.three_le info text
  have hleaf := leaf_fenced ho.closeList h hinfo (atLineEnd_gap hparts)
  have hstep : o.step (fenced size info text ++ gap lines next) =
      (some ⟨info, text ++ ['\n'], fenced size info text ++ gap lines next, gap lines next⟩,
        o.closeList, gap (lines - 1) next) := by
    rw [hmore, List.cons_append] at hleaf ⊢
    rw [Outline.step_of_isFlush ho rfl, blankLine?_cons rfl rfl]
    simp only
    rw [hleaf, behindFence_gap hparts]
  obtain ⟨o', ho', heq⟩ := exists_codeBlocksFrom_gap ho.closeList (lines - 1) next
  refine ⟨o', ho', ?_⟩
  rw [codeBlocksFrom_eq o (by simp [hmore]), hstep]
  simp only [heq]
  rfl

end StyleGuide.Markdown
