import StyleGuide.Proofs.Examples.Partition
import StyleGuide.Proofs.Markdown.TopLevel
import StyleGuide.Text.Cut

/-!
# Writing documents of examples

A document is written block by block: a line of words, or code in a fence that is longer than any
run of backticks in the code. Blank lines stand between the blocks. Reading such a document gives
the blocks back, whatever the code is.

## Main definitions

* `Written`: a block of a document, with the fence that is chosen for code.
* `write`: the text of a document.

## Main results

* `chunks_write`: reading undoes writing.
-/

namespace StyleGuide.Examples

open Markdown

/-! ## Words -/

/-- A word of letters. -/
structure IsLetters (word : List Char) : Prop where
  ne_nil : word ≠ []
  isAlpha : ∀ c ∈ word, c.isAlpha = true

variable {word : List Char} {ws : List (List Char)}

instance : Decidable (IsLetters word) :=
  decidable_of_iff (word ≠ [] ∧ word.all Char.isAlpha = true)
    ⟨fun h => ⟨h.1, List.all_eq_true.1 h.2⟩, fun h => ⟨h.1, List.all_eq_true.2 h.2⟩⟩

lemma IsLetters.isTrimmed (h : IsLetters word) : IsTrimmed word := by
  obtain ⟨c, hc⟩ := Option.ne_none_iff_exists'.1 (mt List.head?_eq_none_iff.1 h.ne_nil)
  obtain ⟨d, hd⟩ := Option.ne_none_iff_exists'.1 (mt List.getLast?_eq_none_iff.1 h.ne_nil)
  exact ⟨⟨c, hc, isBlank_eq_false_of_isAlpha (h.isAlpha c (List.mem_of_head? hc))⟩,
    ⟨d, hd, isBlank_eq_false_of_isAlpha (h.isAlpha d (List.mem_of_getLast? hd))⟩⟩

/-- A line of words has letters at both ends, and only letters and spaces in it. -/
lemma isTrimmed_joinWith (hne : ws ≠ []) (h : ∀ w ∈ ws, IsLetters w) :
    IsTrimmed (joinWith ' ' ws) := by
  induction ws with
  | nil => exact absurd rfl hne
  | cons w ws ih =>
    have hw := (h w List.mem_cons_self).isTrimmed
    cases ws with
    | nil => exact hw
    | cons w' ws =>
      have hws := ih (List.cons_ne_nil _ _) fun v hv => h v (List.mem_cons_of_mem _ hv)
      have happend : IsTrimmed (w ++ [' '] ++ joinWith ' ' (w' :: ws)) := hw.append hws
      rwa [List.append_assoc, List.singleton_append] at happend

lemma isWordLine_joinWith (hne : ws ≠ []) (h : ∀ w ∈ ws, IsLetters w) :
    IsWordLine (joinWith ' ' ws) := by
  obtain ⟨w, ws, rfl⟩ := List.exists_cons_of_ne_nil hne
  constructor
  · obtain ⟨c, cs, rfl⟩ := List.exists_cons_of_ne_nil (h w List.mem_cons_self).ne_nil
    exact ⟨c, _, joinWith_cons_cons ' ' c cs ws, (h _ List.mem_cons_self).isAlpha c
      List.mem_cons_self⟩
  · clear hne
    induction ws generalizing w with
    | nil => exact fun c hc => .inl ((h w List.mem_cons_self).isAlpha c hc)
    | cons w' ws ih =>
      intro c hc
      rw [joinWith, List.mem_append, List.mem_cons] at hc
      rcases hc with hc | rfl | hc
      · exact .inl ((h w List.mem_cons_self).isAlpha c hc)
      · exact .inr rfl
      · exact ih w' (fun v hv => h v (List.mem_cons_of_mem _ hv)) c hc

/-! ## Languages -/

/-- The languages of the playground, as a fence may name them. -/
def playgroundNames : List (List Char) :=
  ["js", "jsx", "javascript", "ts", "tsx", "typescript"].map String.toList

/-- Whether an info string names a language of the playground, in letters of any case, or none. -/
def NamesPlayground (info : List Char) : Prop :=
  info = [] ∨ info.map Char.toLower ∈ playgroundNames

variable {info text : List Char}

lemma isAlpha_of_toLower {c : Char} (h : c.toLower.isAlpha = true) : c.isAlpha = true := by
  unfold Char.toLower at h
  split_ifs at h with hupper
  · have hupper : c.isUpper = true := by
      delta Char.isUpper
      simpa using hupper
    exact Bool.or_eq_true_iff.2 (.inl hupper)
  · exact h

lemma NamesPlayground.isAlpha (h : NamesPlayground info) : ∀ c ∈ info, c.isAlpha = true := by
  rcases h with rfl | h
  · simp
  · have hnames : ∀ name ∈ playgroundNames, name.all Char.isAlpha = true := by decide
    have hlower := List.all_eq_true.1 (hnames _ h)
    exact fun c hc => isAlpha_of_toLower (hlower _ (List.mem_map_of_mem hc))

lemma words_eq_singleton (hne : info ≠ []) (h : ∀ c ∈ info, c.isAlpha = true) :
    words info = [info] := by
  obtain ⟨c, cs, rfl⟩ := List.exists_cons_of_ne_nil hne
  have hcs : ∀ d ∈ cs, (!isBlank d) = true := fun d hd => by
    simp [isBlank_eq_false_of_isAlpha (h d (List.mem_cons_of_mem c hd))]
  have htrim : trimLeft (c :: cs) = c :: cs :=
    trimLeft_cons (isBlank_eq_false_of_isAlpha (h c List.mem_cons_self))
  have hnil : words [] = [] := by
    rw [words]
    rfl
  unfold words
  split
  next heq =>
    rw [htrim] at heq
    cases heq
  next heq =>
    rw [htrim] at heq
    cases heq
    rw [List.takeWhile_eq_self_iff.2 hcs, List.dropWhile_eq_nil_iff.2 hcs, hnil]

/-- Code of such a fence is run. -/
lemma NamesPlayground.isPlaygroundInfo_eq (h : NamesPlayground info) :
    isPlaygroundInfo info = true := by
  by_cases hnil : info = []
  · subst hnil
    decide +kernel
  · have hlower := h.resolve_left hnil
    rw [isPlaygroundInfo, Language.ofInfo, Mode.ofInfo, words_eq_singleton hnil h.isAlpha]
    simp only [playgroundNames, List.map_cons, List.map_nil, List.mem_cons, List.not_mem_nil,
      or_false] at hlower
    rcases hlower with hlower | hlower | hlower | hlower | hlower | hlower
    all_goals
      simp only [hlower, List.tail_cons, List.any_nil, Bool.false_eq_true, if_false]
      decide +kernel

/-! ## Documents -/

/-- A block of a document as it is written. -/
inductive Written where
  /-- Words in one line. -/
  | markdown (words : List (List Char))
  /-- Code in a fence of `size` backticks. -/
  | code (size : Nat) (info text : List Char)
deriving DecidableEq

namespace Written

/-- Whether a block is shown as it is. -/
def isMarkdown : Written → Bool
  | markdown _ => true
  | code .. => false

/-- The part of a document that a block is. -/
def chunk : Written → Chunk
  | markdown words => .markdown (joinWith ' ' words)
  | code _ _ text => .code text

/-- The lines of a block. -/
def content : Written → List Char
  | markdown words => joinWith ' ' words
  | code size info text => fenced size info text

/-- Which blocks can be written: words have letters only, and code is any text with no blank
character at its end, in a fence that is longer than any that the code could close. -/
def IsWritable : Written → Prop
  | markdown words => words ≠ [] ∧ ∀ word ∈ words, IsLetters word
  | code size info text =>
    NamesPlayground info ∧ Fences size text ∧ trimRight text = text ∧ '\x00' ∉ text

end Written

/-- Blocks one below the other with a blank line between each two. As many further blank lines as is
said with a block stand behind it. -/
def write : List (Written × Nat) → List Char
  | [] => []
  | (b, lines) :: blocks =>
    b.content ++ gap (if blocks.isEmpty then lines else lines + 2) (write blocks)

variable {blocks : List (Written × Nat)} {lines : Nat}

/-- Behind a block the document ends, or a blank line stands there. -/
lemma write_eq_nil_or (lines : Nat) (blocks : List (Written × Nat)) :
    write blocks = [] ∨ 2 ≤ if blocks.isEmpty then lines else lines + 2 := by
  cases blocks with
  | nil => exact .inl rfl
  | cons b blocks => exact .inr (Nat.le_add_left 2 lines)

lemma isBlank_of_mem_replicate {n : Nat} : ∀ c ∈ List.replicate n '\n', isBlank c = true := by
  intro c hc
  rw [List.eq_of_mem_replicate hc]
  rfl

lemma ofMarkdown_blank {cs : List Char} (h : ∀ c ∈ cs, isBlank c = true) :
    Chunk.ofMarkdown cs = [] := by
  have htrim : trim cs = [] := by
    have hleft : trimLeft (cs ++ []) = [] := trimLeft_append_left h
    rw [List.append_nil] at hleft
    rw [trim, hleft]
    rfl
  rw [Chunk.ofMarkdown, htrim]

lemma ofMarkdown_around {cs before after : List Char} (h : IsTrimmed cs)
    (hbefore : ∀ c ∈ before, isBlank c = true) (hafter : ∀ c ∈ after, isBlank c = true) :
    Chunk.ofMarkdown (before ++ cs ++ after) = [.markdown cs] := by
  obtain ⟨c, rest, rfl⟩ := List.exists_cons_of_ne_nil h.ne_nil
  rw [Chunk.ofMarkdown, h.trim_around hbefore hafter]

/-- Reading from a block on, when some text in front of it has not been given out yet. Only blank
text may be left in front of words, since what is left there belongs to one part with them. -/
theorem cutBlocks_write {o : Outline} (ho : o.IsFlat) (h : ∀ b ∈ blocks, b.1.IsWritable)
    (hchain : blocks.IsChain fun a b => ¬(a.1.isMarkdown ∧ b.1.isMarkdown)) (before : List Char)
    (hbefore : ∀ b ∈ blocks.head?, b.1.isMarkdown = true → ∀ c ∈ before, isBlank c = true) :
    cutBlocks ((codeBlocksFrom o (write blocks)).filter fun b => isPlaygroundInfo b.info)
        (before ++ write blocks) =
      Chunk.ofMarkdown before ++ blocks.map (·.1.chunk) := by
  induction blocks generalizing o before with
  | nil => simp [write, cutBlocks]
  | cons b blocks ih =>
    obtain ⟨b, lines⟩ := b
    have hblocks : ∀ b ∈ blocks, b.1.IsWritable := fun b hb => h b (List.mem_cons_of_mem _ hb)
    have hparts := write_eq_nil_or lines blocks
    rw [write]
    generalize (if blocks.isEmpty then lines else lines + 2) = behind at hparts ⊢
    cases b with
    | markdown words =>
      obtain ⟨hne, hwords⟩ := h _ List.mem_cons_self
      have hblank : ∀ c ∈ before, isBlank c = true := hbefore _ rfl rfl
      obtain ⟨o', ho', heq⟩ :=
        exists_codeBlocksFrom_words ho (isWordLine_joinWith hne hwords) hparts
      -- what stands behind the words is code, so the words are all that is left in front of it
      have hnext : ∀ b ∈ blocks.head?, b.1.isMarkdown = true →
          ∀ c ∈ before ++ joinWith ' ' words ++ List.replicate behind '\n', isBlank c = true :=
        fun b hb hmarkdown => absurd ⟨rfl, hmarkdown⟩ ((List.isChain_cons.1 hchain).1 b hb)
      have hread := ih ho' hblocks hchain.tail _ hnext
      have htrimmed := isTrimmed_joinWith hne hwords
      rw [ofMarkdown_around htrimmed hblank isBlank_of_mem_replicate] at hread
      rw [Written.content, heq, ofMarkdown_blank hblank, gap, ← List.append_assoc,
        ← List.append_assoc, hread]
      rfl
    | code size info text =>
      obtain ⟨hinfo, hfences, htext, -⟩ := h _ List.mem_cons_self
      obtain ⟨o', ho', heq⟩ := exists_codeBlocksFrom_fenced ho hfences hinfo.isAlpha
        (hparts.imp_right fun hle => Nat.ne_of_gt (Nat.lt_of_lt_of_le Nat.zero_lt_two hle))
      have hread := ih ho' hblocks hchain.tail (List.replicate behind '\n')
        fun _ _ _ => isBlank_of_mem_replicate
      rw [ofMarkdown_blank isBlank_of_mem_replicate, List.nil_append] at hread
      have htrim : trimRight (text ++ ['\n']) = text := by
        rw [trimRight_append_right (List.forall_mem_singleton.2 rfl), htext]
      rw [Written.content, heq, List.filter_cons_of_pos (by simpa using hinfo.isPlaygroundInfo_eq),
        cutBlocks, upTo_append, htrim, gap, hread]
      rfl

/-- Reading a document gives back the blocks that were written. -/
theorem chunks_write (h : ∀ b ∈ blocks, b.1.IsWritable)
    (hchain : blocks.IsChain fun a b => ¬(a.1.isMarkdown ∧ b.1.isMarkdown)) :
    chunks (String.ofList (write blocks)) ⟨none, none⟩ = blocks.map (·.1.chunk) := by
  have hread := cutBlocks_write (o := .start) rfl h hchain [] (by simp)
  rw [chunks, String.toList_ofList]
  exact hread

/-- Code that holds a shorter fence, headings, items of lists and indented lines. -/
def sampleCode : List Char := "\n  # a\n\x60\x60\x60\n\n- b\n\tc".toList

/-- Two examples, the second one empty, and words behind each. -/
def sampleBlocks : List (Written × Nat) := [
  (.code 4 "TSX".toList sampleCode, 0), (.markdown ["Use".toList, "it".toList], 1),
  (.code 3 [] [], 0), (.markdown ["so".toList], 2)]

lemma sampleBlocks_writable : ∀ b ∈ sampleBlocks, b.1.IsWritable := by
  have hcode : Fences 4 sampleCode :=
    ⟨by decide, fun hrun => absurd (hrun.sublist.count_le '\x60') (by decide), by decide⟩
  have hempty : Fences 3 [] := ⟨by decide, by simp, by simp⟩
  simp only [sampleBlocks, List.forall_mem_cons, Written.IsWritable]
  exact ⟨⟨.inr (by decide), hcode, by decide +kernel, by decide⟩, by decide,
    ⟨.inl rfl, hempty, rfl, by decide⟩, by decide, nofun⟩

/-- Reading `sampleBlocks` as they are written. -/
theorem chunks_write_sample :
    String.ofList (write sampleBlocks) =
      "\x60\x60\x60\x60TSX\n\n  # a\n\x60\x60\x60\n\n- b\n\tc\n\x60\x60\x60\x60\n\n" ++
        "Use it\n\n\n\x60\x60\x60\n\n\x60\x60\x60\n\nso\n\n" ∧
    chunks (String.ofList (write sampleBlocks)) ⟨none, none⟩ =
      [.code sampleCode, .markdown "Use it".toList, .code [], .markdown "so".toList] :=
  ⟨by decide +kernel, chunks_write sampleBlocks_writable (by decide)⟩

end StyleGuide.Examples
