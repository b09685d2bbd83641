import Mathlib.Data.List.TakeWhile
import StyleGuide.Markdown.Block

/-!
# How reading gets on

Every block of lines ends at a place that lies behind the one where it starts, and what is read next
starts there or further on. So reading a document comes to its end, and its blocks of code stand one
behind the other, however they are nested.

## Main definitions

* `LiesBehind`: a place behind another one, with some text between.
* `InOrder`: blocks of code that stand in a text, each behind the one before.

## Main results

* `Outline.step_liesBehind`: reading a block gets on.
* `codeBlocksFrom_eq`: the blocks of code are those of the first block read and those behind it.
* `inOrder_codeBlocks`: the blocks of code of a document stand in it in order.
-/

namespace StyleGuide.Markdown

/-- A place behind another one, with some text between. -/
structure LiesBehind (rest cs : List Char) : Prop where
  length_lt : rest.length < cs.length
  suffix : rest <:+ cs

namespace LiesBehind

variable {rest mid cs : List Char}

lemma of_suffix (h : rest <:+ mid) (h' : LiesBehind mid cs) : LiesBehind rest cs :=
  ⟨Nat.lt_of_le_of_lt h.length_le h'.length_lt, h.trans h'.suffix⟩

lemma trans_suffix (h : LiesBehind rest mid) (h' : mid <:+ cs) : LiesBehind rest cs :=
  ⟨Nat.lt_of_lt_of_le h.length_lt h'.length_le, h.suffix.trans h'⟩

lemma cons (c : Char) (cs : List Char) : LiesBehind cs (c :: cs) :=
  ⟨Nat.lt_succ_self _, List.suffix_cons c cs⟩

end LiesBehind

variable {ks : List Container} {cs rest : List Char}

lemma behindLine_liesBehind (h : cs ≠ []) : LiesBehind (behindLine cs) cs :=
  ⟨behindLine_length h, behindLine_suffix cs⟩

lemma behindLineFeed_liesBehind (h : cs ≠ []) : LiesBehind (behindLineFeed cs) cs :=
  ⟨behindLineFeed_length h, behindLineFeed_suffix cs⟩

lemma lineEnd?_liesBehind (hne : cs ≠ []) (h : lineEnd? cs = some rest) : LiesBehind rest cs := by
  unfold lineEnd? at h
  split at h
  · exact absurd rfl hne
  · cases h
    exact (LiesBehind.cons _ _).of_suffix (List.suffix_cons _ _)
  · split at h
    · cases h
      exact .cons _ _
    · cases h

lemma blankLine?_liesBehind (hne : cs ≠ []) (h : blankLine? cs = some rest) :
    LiesBehind rest cs := by
  unfold blankLine? at h
  by_cases hnil : cs.dropWhile isInlineBlank = []
  · rw [hnil] at h
    cases h
    exact ⟨List.length_pos_iff.2 hne, List.nil_suffix⟩
  · exact (lineEnd?_liesBehind hnil h).trans_suffix (List.dropWhile_suffix _)

/-! ## Definitions of links -/

lemma bracketedEnd?_suffix (h : bracketedEnd? cs = some rest) : rest <:+ cs := by
  fun_induction bracketedEnd? cs <;> grind [List.suffix_cons, List.IsSuffix.trans]

lemma plainEnd?_suffix {depth : Nat} (h : plainEnd? depth cs = some rest) : rest <:+ cs := by
  fun_induction plainEnd? depth cs <;> grind [List.suffix_cons, List.IsSuffix.trans]

lemma destinationEnd?_suffix (h : destinationEnd? cs = some rest) : rest <:+ cs := by
  unfold destinationEnd? at h
  split at h
  · exact (bracketedEnd?_suffix h).trans (List.suffix_cons _ _)
  · split at h
    next hplain =>
      split at h
      · cases h
      · cases h
        exact plainEnd?_suffix hplain
    · cases h

lemma titleEnd?_suffix {closing : Char} {fuel : Nat}
    (h : titleEnd? ks closing fuel cs = some rest) : rest <:+ cs := by
  induction fuel generalizing cs with
  | zero => cases h
  | succ fuel ih =>
    cases cs with
    | nil => cases h
    | cons c cs =>
      have here : cs <:+ c :: cs := List.suffix_cons c cs
      simp only [titleEnd?] at h
      split at h
      · cases h
        exact here
      split at h
      · exact (ih h).trans ((List.tail_suffix _).trans here)
      split at h
      · obtain ⟨next, hnext, h⟩ := Option.bind_eq_some_iff.1 h
        obtain ⟨behind, hbehind, hnext⟩ := Option.bind_eq_some_iff.1 hnext
        exact (ih h).trans ((nextLine?_suffix hnext).trans (lineEnd?_suffix hbehind))
      · exact (ih h).trans here

lemma title?_suffix (h : title? ks cs = some rest) : rest <:+ cs := by
  unfold title? at h
  split at h
  · exact (titleEnd?_suffix h).trans (List.suffix_cons _ _)
  · exact (titleEnd?_suffix h).trans (List.suffix_cons _ _)
  · exact (titleEnd?_suffix h).trans (List.suffix_cons _ _)
  · cases h

lemma definitionSpace?_suffix {broken : Bool} (h : definitionSpace? ks cs = some (broken, rest)) :
    rest <:+ cs := by
  have hinner : cs.dropWhile isInlineBlank <:+ cs := List.dropWhile_suffix _
  unfold definitionSpace? at h
  simp only at h
  split at h
  · cases h
    exact hinner
  next hbehind =>
    split at h
    · cases h
    next hnext =>
      split at h
      · cases h
      · cases h
        exact (List.dropWhile_suffix _).trans
          ((nextLine?_suffix hnext).trans ((lineEnd?_suffix hbehind).trans hinner))

/-- Reading a definition gets on. -/
theorem definition?_liesBehind (h : definition? ks cs = some rest) : LiesBehind rest cs := by
  unfold definition? at h
  split at h
  next inner =>
    simp only [Option.bind_eq_bind, Option.bind_eq_some_iff] at h
    obtain ⟨label, hlabel, h⟩ := h
    have hlabel : label <:+ inner := labelEnd?_suffix nextLine?_suffix hlabel
    split at h
    next behindColon =>
      simp only [Option.bind_some, Option.bind_eq_some_iff] at h
      obtain ⟨⟨_, start⟩, hstart, bare, hbare, h⟩ := h
      have hbare : LiesBehind bare ('[' :: inner) :=
        (LiesBehind.cons '[' inner).of_suffix <| (destinationEnd?_suffix hbare).trans <|
          (definitionSpace?_suffix hstart).trans <| (List.suffix_cons _ _).trans hlabel
      split at h
      · cases h
        exact hbare
      next hplace =>
        have hplace := definitionSpace?_suffix hplace
        split at h
        · cases h
        · split at h
          · grind
          next htitled =>
            have htitled := (title?_suffix htitled).trans hplace
            split at h
            · cases h
              exact hbare.of_suffix htitled
            · grind
    · simp at h
  · simp at h

/-! ## HTML -/

lemma suffix_of_goOnAll {all : Bool} {c : Cursor} (h : goOnAll ks cs = (all, c)) :
    c.rest <:+ cs := by
  have hgoOn := goOnAll_suffix ks cs
  rwa [h] at hgoOn

lemma htmlToText_suffix (text : List Char) : htmlToText ks text cs <:+ behindLineFeed cs := by
  fun_induction htmlToText ks text cs with
  | case1 => exact List.suffix_rfl
  | case2 cs next _ c hc _ _ ih =>
    exact (ih.trans (behindLineFeed_suffix _)).trans (suffix_of_goOnAll hc)
  | case3 => exact List.suffix_rfl

lemma htmlToBlank_suffix : htmlToBlank ks cs <:+ behindLineFeed cs := by
  fun_induction htmlToBlank ks cs with
  | case1 => exact List.suffix_rfl
  | case2 cs next _ c hc _ _ ih =>
    exact (ih.trans (behindLineFeed_suffix _)).trans (suffix_of_goOnAll hc)
  | case3 => exact List.suffix_rfl

/-! ## Tables and paragraphs -/

lemma tableRows_suffix : tableRows ks cs <:+ cs := by
  fun_induction tableRows ks cs with
  | case1 => exact List.suffix_rfl
  | case2 cs _ c hc row next _ _ ih =>
    have hrow : row <:+ c.rest := List.dropWhile_suffix _
    exact ih.trans ((behindLine_suffix row).trans (hrow.trans (suffix_of_goOnAll hc)))
  | case3 => exact List.suffix_rfl

lemma table?_suffix (h : table? ks cs = some rest) : rest <:+ behindLine cs := by
  unfold table? at h
  simp only at h
  split at h
  · cases h
    exact (behindLine_suffix _).trans (goOnAll_suffix _ _)
  · cases h

lemma underline?_suffix (h : underline? cs = some rest) : rest <:+ cs := by
  unfold underline? at h
  split at h
  · exact (blankLine?_suffix h).trans ((List.dropWhile_suffix _).trans (List.suffix_cons _ _))
  · exact (blankLine?_suffix h).trans ((List.dropWhile_suffix _).trans (List.suffix_cons _ _))
  · cases h

lemma paragraphEnd?_suffix (h : paragraphEnd? ks cs = some rest) : rest <:+ cs := by
  unfold paragraphEnd? at h
  simp only at h
  have hline := ((goOnAll ks cs).2.takeSpaces_suffix 4).trans (goOnAll_suffix ks cs)
  split at h
  · cases h
    exact List.suffix_rfl
  split at h
  · cases h
  split at h
  next hunderline =>
    cases h
    split at hunderline
    · exact (underline?_suffix hunderline).trans hline
    · cases hunderline
  split at h
  · cases h
    exact List.suffix_rfl
  · cases h

lemma paragraphLines_suffix : paragraphLines ks cs <:+ cs := by
  fun_induction paragraphLines ks cs with
  | case1 cs behind h => exact paragraphEnd?_suffix h
  | case2 cs _ next _ ih =>
    exact ih.trans <| (behindLine_suffix _).trans <| (List.dropWhile_suffix _).trans
      (goOnAll_suffix ks cs)
  | case3 => exact List.suffix_rfl

lemma paragraph_suffix : paragraph ks cs <:+ behindLine cs := by
  unfold paragraph
  split
  next h =>
    exact tableRows_suffix.trans (table?_suffix h)
  · exact paragraphLines_suffix

lemma paragraph_liesBehind (h : cs ≠ []) : LiesBehind (paragraph ks cs) cs :=
  (behindLine_liesBehind h).of_suffix paragraph_suffix

theorem definitions_liesBehind (h : cs ≠ []) : LiesBehind (definitions ks cs) cs := by
  fun_induction definitions ks cs with
  | case1 => exact paragraph_liesBehind h
  | case2 => exact paragraph_liesBehind h
  | case3 cs rest hrest next hnext =>
    exact (definition?_liesBehind hrest).of_suffix (blankLine?_suffix hnext)
  | case4 cs rest hrest next hnext =>
    exact (definition?_liesBehind hrest).of_suffix (blankLine?_suffix hnext)
  | case5 cs rest hrest next hnext line hline inner hblank _ ih =>
    have hinner : inner ≠ [] := by
      intro hnil
      rw [hnil] at hblank
      exact hblank rfl
    have hplace : inner <:+ rest :=
      (List.dropWhile_suffix _).trans ((nextLine?_suffix hline).trans (blankLine?_suffix hnext))
    exact (definition?_liesBehind hrest).of_suffix ((ih hinner).suffix.trans hplace)
  | case6 cs rest hrest next hnext =>
    exact (definition?_liesBehind hrest).of_suffix (blankLine?_suffix hnext)

/-! ## Code -/

lemma fencedCode_suffix (ks : List Container) (f : Fence) (cs : List Char) :
    (fencedCode ks f cs).stop <:+ cs ∧ (fencedCode ks f cs).rest <:+ (fencedCode ks f cs).stop := by
  fun_induction fencedCode ks f cs with
  | case1 => exact ⟨List.suffix_rfl, List.suffix_rfl⟩
  | case2 cs _ c hc line _ stop hstop =>
    have hline : line.rest <:+ cs := (c.takeSpaces_suffix _).trans (suffix_of_goOnAll hc)
    refine ⟨(Fence.closedAt?_suffix hstop).trans hline, ?_⟩
    cases hblank : blankLine? stop with
    | none => exact List.suffix_rfl
    | some rest => exact blankLine?_suffix hblank
  | case3 cs _ c hc line next _ _ _ _ ih =>
    have hline : line.rest <:+ cs := (c.takeSpaces_suffix _).trans (suffix_of_goOnAll hc)
    exact ⟨ih.1.trans ((behindLineFeed_suffix _).trans hline), ih.2⟩
  | case4 => exact ⟨List.suffix_rfl, List.suffix_rfl⟩

lemma exists_indentedLines_cons (ks : List Container) (isBlank : Bool) (c : Cursor) :
    ∃ line more, indentedLines ks isBlank c = line :: more ∧ line.isBlank = isBlank := by
  fun_induction indentedLines ks isBlank c with
  | case1 => exact ⟨_, _, rfl, rfl⟩
  | case2 => exact ⟨_, _, rfl, rfl⟩
  | case3 => exact ⟨_, _, rfl, rfl⟩

/-- Lines of code stand one behind the other. -/
lemma pairwise_indentedLines (ks : List Container) (isBlank : Bool) (c : Cursor) :
    (indentedLines ks isBlank c).Pairwise (fun l m => m.behind <:+ l.behind) ∧
      ∀ l ∈ indentedLines ks isBlank c, l.behind <:+ behindLineFeed c.rest := by
  fun_induction indentedLines ks isBlank c with
  | case1 =>
    exact ⟨List.pairwise_singleton _ _, List.forall_mem_singleton.2 List.suffix_rfl⟩
  | case2 isBlank c next line _ d hd missing e he _ _ ih =>
    have hmore : ∀ l ∈ indentedLines ks (blankLine? e.rest).isSome e, l.behind <:+ next := by
      have hrest : e.rest <:+ next := by
        have htake := d.takeSpaces_suffix 4
        rw [he] at htake
        exact htake.trans (suffix_of_goOnAll hd)
      exact fun l hl => (ih.2 l hl).trans ((behindLineFeed_suffix _).trans hrest)
    exact ⟨List.pairwise_cons.2 ⟨hmore, ih.1⟩, List.forall_mem_cons.2 ⟨List.suffix_rfl, hmore⟩⟩
  | case3 =>
    exact ⟨List.pairwise_singleton _ _, List.forall_mem_singleton.2 List.suffix_rfl⟩

/-- Blank lines at the end do not belong to the code, but its first line always does. -/
lemma exists_kept_lines (ks : List Container) (c : Cursor) :
    ∃ front last blank, indentedLines ks false c = front ++ [last] ++ blank ∧
      ((indentedLines ks false c).reverse.dropWhile (·.isBlank)).reverse = front ++ [last] := by
  obtain ⟨line, more, hlines, hline⟩ := exists_indentedLines_cons ks false c
  have hkept : ((indentedLines ks false c).reverse.dropWhile (·.isBlank)).reverse ≠ [] := by
    rw [Ne, List.reverse_eq_nil_iff, List.dropWhile_eq_nil_iff, hlines]
    intro hall
    have := hall line (by simp)
    simp [hline] at this
  obtain ⟨front, last, hfront⟩ := (List.eq_nil_or_concat _).resolve_left hkept
  rw [List.concat_eq_append] at hfront
  refine ⟨front, last, ((indentedLines ks false c).reverse.takeWhile (·.isBlank)).reverse, ?_,
    hfront⟩
  rw [← hfront, ← List.reverse_append, List.takeWhile_append_dropWhile, List.reverse_reverse]

lemma indentedCode_suffix (ks : List Container) (c : Cursor) :
    (indentedCode ks c).1.stop <:+ behindLineFeed c.rest ∧
      (indentedCode ks c).1.rest <:+ (indentedCode ks c).1.stop := by
  obtain ⟨hpairwise, hbehind⟩ := pairwise_indentedLines ks false c
  obtain ⟨front, last, blank, hlines, hkept⟩ := exists_kept_lines ks c
  simp only [indentedCode, hkept]
  rw [hlines] at hpairwise hbehind ⊢
  have hlast : last.behind <:+ behindLineFeed c.rest := hbehind last (by simp)
  rcases List.eq_nil_or_concat blank with rfl | ⟨blank, line, rfl⟩
  · simpa using hlast
  · have hline : line.behind <:+ last.behind :=
      (List.pairwise_append.1 hpairwise).2.2 last (by simp) line (by simp)
    have hend : (front ++ [last] ++ blank.concat line).getLast? = some line := by
      rw [List.concat_eq_append, ← List.append_assoc, List.getLast?_concat]
    rw [hend]
    refine ⟨?_, ?_⟩
    · simpa using hlast
    · simpa using hline

/-! ## Containers -/

lemma exists_spaces (n column : Nat) (cs : List Char) :
    ∃ front, (∀ x ∈ front, isSpace x = true) ∧
      cs = front ++ (Cursor.spaces n column cs).2.rest := by
  induction cs generalizing n column with
  | nil => exact ⟨[], by simp, rfl⟩
  | cons c cs ih =>
    have hspace : ∀ m k, isSpace c = true → ∃ front, (∀ x ∈ front, isSpace x = true) ∧
        c :: cs = front ++ (Cursor.spaces m k cs).2.rest := by
      intro m k hc
      obtain ⟨front, hfront, heq⟩ := ih m k
      exact ⟨c :: front, List.forall_mem_cons.2 ⟨hc, hfront⟩, by rw [List.cons_append, ← heq]⟩
    unfold Cursor.spaces
    split
    · exact ⟨[], by simp, rfl⟩
    split
    · exact hspace _ _ (by simp [*, isSpace])
    split_ifs with htab
    · simp only
      split
      · exact hspace _ _ (by simp [htab, isSpace])
      · exact ⟨[c], by simp [htab, isSpace], rfl⟩
    · exact ⟨[], by simp, rfl⟩

/-- Using up space leaves nothing out but space. -/
lemma exists_takeSpaces (n : Nat) (c : Cursor) :
    ∃ front, (∀ x ∈ front, isSpace x = true) ∧ c.rest = front ++ (c.takeSpaces n).2.rest := by
  unfold Cursor.takeSpaces
  split
  · exact ⟨[], by simp, rfl⟩
  · exact exists_spaces _ _ _

namespace Outline

variable {o : Outline} {c : Cursor}

lemma indentUpTo_suffix (n : Nat) (c : Cursor) : (c.indentUpTo n).2.rest <:+ c.rest :=
  c.takeSpaces_suffix n

/-- What is left of a line when containers have been opened stands at its end. -/
theorem openAll_suffix (o : Outline) (c : Cursor) : (o.openAll c).2.1.rest <:+ c.rest := by
  have hindent := indentUpTo_suffix 4 c
  unfold openAll
  simp only
  split
  · exact List.suffix_rfl
  split
  next rest hmark =>
    split
    · exact (openAll_suffix _ _).trans ((footnoteMark?_suffix hmark).2.trans hindent)
    · exact List.suffix_rfl
  split
  next m width e hmarker =>
    have he := (Cursor.marker?_suffix hmarker).2.trans hindent
    split
    · exact he
    split
    next e' hbox =>
      have he' := (Cursor.taskBox?_suffix hbox).trans he
      split
      · exact he'
      split
      · exact (openAll_suffix _ _).trans he'
      · exact he'
    · split
      · exact (openAll_suffix _ _).trans he
      · exact he
  split
  next e hquote =>
    split
    · exact (openAll_suffix _ _).trans ((Cursor.quoteMark?_suffix hquote).2.trans hindent)
    · exact List.suffix_rfl
  · exact List.suffix_rfl
termination_by c.rest.length

/-! ## Blocks -/

/-- What is left behind the space in front of a line that is not blank. -/
lemma rest_ne_nil_of_blankLine? {n : Nat} (h : blankLine? c.rest = none) :
    (c.indentUpTo n).2.rest ≠ [] := by
  obtain ⟨front, hfront, heq⟩ := exists_takeSpaces n c
  intro hnil
  change (c.takeSpaces n).2.rest = [] at hnil
  rw [hnil, List.append_nil] at heq
  have hdrop : c.rest.dropWhile isInlineBlank = [] := by
    rw [heq, List.dropWhile_eq_nil_iff]
    intro x hx
    have hspace := hfront x hx
    simp only [isSpace, Bool.or_eq_true] at hspace
    simp only [isInlineBlank, Bool.or_eq_true, hspace, true_or]
  rw [blankLine?, hdrop] at h
  cases h

/-- A fence stands in front of what is left behind it. -/
lemma fence?_liesBehind {indent : Nat} {f : Fence} (h : fence? indent cs = some (f, rest)) :
    LiesBehind rest cs := by
  unfold fence? at h
  split at h
  · cases h
  simp only at h
  split at h
  · split at h
    · cases h
    split at h
    · cases h
    next hsize _ =>
      cases h
      refine ⟨?_, List.drop_suffix _ _⟩
      rw [List.length_drop, List.length_cons]
      omega
  · cases h

/-- What a block of lines is read from, the block if it is code, and the place of the next line
stand one behind the other. -/
structure Reads (cs : List Char) (block? : Option CodeBlock) (rest : List Char) : Prop where
  liesBehind : LiesBehind rest cs
  block : ∀ b, block? = some b → b.start <:+ cs ∧ LiesBehind b.stop b.start ∧ rest <:+ b.stop

variable {cs rest : List Char}

lemma reads_none (h : LiesBehind rest cs) : Reads cs none rest := ⟨h, nofun⟩

lemma reads_some {b : CodeBlock} (hstart : b.start <:+ cs) (hstop : LiesBehind b.stop b.start)
    (hrest : rest <:+ b.stop) : Reads cs (some b) rest := by
  refine ⟨(hstop.of_suffix hrest).trans_suffix hstart, ?_⟩
  rintro _ ⟨⟩
  exact ⟨hstart, hstop, hrest⟩

lemma Reads.trans_suffix {mid : List Char} {block? : Option CodeBlock} (h : Reads mid block? rest)
    (hmid : mid <:+ cs) : Reads cs block? rest := by
  refine ⟨h.liesBehind.trans_suffix hmid, fun b hb => ?_⟩
  obtain ⟨hstart, hstop⟩ := h.block b hb
  exact ⟨hstart.trans hmid, hstop⟩

theorem leaf_reads (h : blankLine? c.rest = none) :
    Reads c.rest (o.leaf c).1 (o.leaf c).2.2 := by
  have hindent := indentUpTo_suffix 4 c
  have hne := rest_ne_nil_of_blankLine? (n := 4) h
  refine Reads.trans_suffix ?_ hindent
  have hfeed := behindLineFeed_liesBehind hne
  unfold leaf
  simp only
  split
  · have hcode := indentedCode_suffix o.containers (c.indentUpTo 4).2
    exact reads_some List.suffix_rfl (hfeed.of_suffix hcode.1) hcode.2
  split
  · exact reads_none (hfeed.of_suffix (htmlToText_suffix _))
  split
  · exact reads_none (hfeed.of_suffix htmlToBlank_suffix)
  split
  · exact reads_none (behindLine_liesBehind hne)
  split
  next f rest hfence =>
    have hcode := fencedCode_suffix o.containers f (behindLineFeed rest)
    have hrest := (fence?_liesBehind hfence).of_suffix (behindLineFeed_suffix rest)
    exact reads_some List.suffix_rfl (hrest.of_suffix hcode.1) hcode.2
  · exact reads_none (definitions_liesBehind hne)

theorem step_reads (h : cs ≠ []) : Reads cs (o.step cs).1 (o.step cs).2.2 := by
  have hgoOn := goOn_suffix o.containers (.ofLine cs)
  have hopen := openAll_suffix (o.keep (goOn o.containers (.ofLine cs)).1.length)
    (goOn o.containers (.ofLine cs)).2
  unfold step
  simp only
  split
  next rest hrest =>
    have hplace := hopen.trans hgoOn
    refine reads_none ?_
    by_cases hnil : ((o.keep (goOn o.containers (.ofLine cs)).1.length).openAll
        (goOn o.containers (.ofLine cs)).2).2.1.rest = []
    · rw [hnil] at hrest
      cases hrest
      exact ⟨List.length_pos_iff.2 h, List.nil_suffix⟩
    · exact (blankLine?_liesBehind hnil hrest).trans_suffix hplace
  next hblank =>
    exact (leaf_reads hblank).trans_suffix (hopen.trans hgoOn)

/-- Reading a block gets on. -/
theorem step_liesBehind (h : cs ≠ []) : LiesBehind (o.step cs).2.2 cs := (step_reads h).liesBehind

end Outline

/-! ## Documents -/

/-- Blocks of code that stand in a text, each behind the one before. -/
def InOrder : List CodeBlock → List Char → Prop
  | [], _ => True
  | b :: blocks, cs => b.start <:+ cs ∧ LiesBehind b.stop b.start ∧ InOrder blocks b.stop

lemma InOrder.of_suffix {blocks : List CodeBlock} {mid : List Char} (h : InOrder blocks mid)
    (hmid : mid <:+ cs) : InOrder blocks cs := by
  cases blocks with
  | nil => trivial
  | cons b blocks => exact ⟨h.1.trans hmid, h.2⟩

lemma InOrder.filter {blocks : List CodeBlock} (h : InOrder blocks cs) (p : CodeBlock → Bool) :
    InOrder (blocks.filter p) cs := by
  induction blocks generalizing cs with
  | nil => trivial
  | cons b blocks ih =>
    obtain ⟨hstart, hstop, hblocks⟩ := h
    rw [List.filter_cons]
    split
    · exact ⟨hstart, hstop, ih hblocks⟩
    · exact (ih hblocks).of_suffix (hstop.suffix.trans hstart)

/-- Each of some blocks that stand in order in a text lies in the text. -/
lemma InOrder.of_mem {blocks : List CodeBlock} {b : CodeBlock} (h : InOrder blocks cs)
    (hb : b ∈ blocks) : b.start <:+ cs ∧ LiesBehind b.stop b.start := by
  induction blocks generalizing cs with
  | nil => cases hb
  | cons a blocks ih =>
    obtain ⟨hstart, hstop, hblocks⟩ := h
    rcases List.mem_cons.1 hb with rfl | hb
    · exact ⟨hstart, hstop⟩
    · obtain ⟨hstart', hstop'⟩ := ih hblocks hb
      exact ⟨hstart'.trans (hstop.suffix.trans hstart), hstop'⟩

@[simp] lemma codeBlocksFrom_nil (o : Outline) : codeBlocksFrom o [] = [] := by
  rw [codeBlocksFrom]
  rfl

/-- The blocks of code are the one that is read first, if it is code, and those behind it. -/
theorem codeBlocksFrom_eq (o : Outline) (h : cs ≠ []) :
    codeBlocksFrom o cs =
      (o.step cs).1.toList ++ codeBlocksFrom (o.step cs).2.1 (o.step cs).2.2 := by
  rw [codeBlocksFrom, if_neg (by simpa using h)]
  simp only
  rw [if_pos (Outline.step_liesBehind h).length_lt]

theorem inOrder_codeBlocksFrom (o : Outline) (cs : List Char) :
    InOrder (codeBlocksFrom o cs) cs := by
  by_cases h : cs = []
  · rw [h, codeBlocksFrom_nil]
    trivial
  · have hreads := Outline.step_reads (o := o) h
    have hlt := hreads.liesBehind.length_lt
    have hmore := inOrder_codeBlocksFrom (o.step cs).2.1 (o.step cs).2.2
    rw [codeBlocksFrom_eq o h]
    cases hblock : (o.step cs).1 with
    | none => exact hmore.of_suffix hreads.liesBehind.suffix
    | some b =>
      obtain ⟨hstart, hstop, hrest⟩ := hreads.block b hblock
      exact ⟨hstart, hstop, hmore.of_suffix hrest⟩
termination_by cs.length

/-- The blocks of code of a document stand in it in order. -/
theorem inOrder_codeBlocks (cs : List Char) : InOrder (codeBlocks cs) cs :=
  inOrder_codeBlocksFrom .start cs

end StyleGuide.Markdown
