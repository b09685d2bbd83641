import Mathlib.Data.List.Chain
import Mathlib.Tactic.Common
import StyleGuide.Examples.Document
import StyleGuide.Proofs.Markdown.Place
import StyleGuide.Proofs.Text.Blank
import StyleGuide.Proofs.Text.Slice

/-!
# Where a document of examples is cut

The examples of a document stand in it in order, so what stands before, between and behind them are
slices of the document, and the parts of the document are those slices with the examples between
them.

The same parts come out when a document is read event by event, with the bytes in front of the next
slice and the text of the example that is read carried along. No slice fails there, since blocks
start and stop between characters, and none starts before the one before it has stopped.

## Main definitions

* `CutAt`: the parts that a text is cut into at blocks of code.
* `Event`, `Reports`: what is reported of a document with given blocks of code.
* `chunksOfEvents?`: the parts of a document from what is reported of it.

## Main results

* `chunksOfEvents?_eq_cutBlocks`: reading events gives the parts that are cut out at the blocks.
* `chunks_partition`: how a document is cut into its parts.
-/

namespace StyleGuide.Examples

open Markdown (CodeBlock codeBlocks InOrder LiesBehind inOrder_codeBlocks)

/-! ## Places and bytes -/

/-- How many bytes of a text stand in front of a place in it. -/
def byteAt (place text : List Char) : Nat := byteSize (upTo place text)

variable {s t place mid text : List Char} {b : CodeBlock} {blocks : List CodeBlock}

@[simp] lemma upTo_append (front place : List Char) : upTo place (front ++ place) = front := by
  simp [upTo]

@[simp] lemma upTo_self (place : List Char) : upTo place place = [] := upTo_append [] place

lemma upTo_append_of_suffix (h : place <:+ text) : upTo place text ++ place = text := by
  obtain ⟨front, rfl⟩ := h
  rw [upTo_append]

/-- The bytes in front of a place that lies behind another one. -/
lemma byteAt_of_suffix (h : place <:+ mid) (hmid : mid <:+ text) :
    byteAt place text = byteAt mid text + byteSize (upTo place mid) := by
  obtain ⟨middle, rfl⟩ := h
  obtain ⟨front, rfl⟩ := hmid
  rw [byteAt, byteAt, upTo_append, upTo_append, ← List.append_assoc, upTo_append, byteSize_append]

/-- A text can be cut at every place in it. -/
lemma splitAtByte?_byteAt (h : place <:+ text) :
    splitAtByte? (byteAt place text) text = some (upTo place text, place) :=
  splitAtByte?_eq_some_iff.2 ⟨(upTo_append_of_suffix h).symm, rfl⟩

/-- Between two places in a text there is a slice. -/
lemma slice?_byteAt (h : place <:+ mid) (hmid : mid <:+ text) :
    slice? (byteAt mid text) (byteAt place text) text = some (upTo place mid) := by
  have hsplit : upTo mid text ++ upTo place mid ++ place = text := by
    rw [List.append_assoc, upTo_append_of_suffix h, upTo_append_of_suffix hmid]
  have hslice := slice?_append (upTo mid text) (upTo place mid) place
  rw [hsplit] at hslice
  rwa [byteAt_of_suffix h hmid]

lemma byteAt_lt (h : LiesBehind place mid) (hmid : mid <:+ text) :
    byteAt mid text < byteAt place text := by
  obtain ⟨middle, rfl⟩ := h.suffix
  have hne : middle ≠ [] := by
    rintro rfl
    exact absurd h.length_lt (Nat.lt_irrefl _)
  have hpos := byteSize_pos hne
  rw [byteAt_of_suffix (List.suffix_append _ _) hmid, upTo_append]
  omega

/-! ## Blocks in a text -/

/-- Each block stops before the ones behind it start. -/
lemma pairwise_byteAt (h : InOrder blocks t) (ht : t <:+ s) :
    blocks.Pairwise fun a b => byteAt a.stop s ≤ byteAt b.start s := by
  induction blocks generalizing t with
  | nil => exact .nil
  | cons a blocks ih =>
    obtain ⟨hstart, hstop, hblocks⟩ := h
    have hplace : a.stop <:+ s := hstop.suffix.trans (hstart.trans ht)
    refine List.pairwise_cons.2 ⟨fun b hb => ?_, ih hblocks hplace⟩
    rw [byteAt_of_suffix (hblocks.of_mem hb).1 hplace]
    exact Nat.le_add_right _ _

/-- The parts that a text is cut into at blocks of code: the text of each block without the blank
characters behind it, and around the blocks what stands there, if it is not blank. -/
inductive CutAt : List CodeBlock → List Char → List Chunk → Prop
  | last (text : List Char) : CutAt [] text (Chunk.ofMarkdown text)
  | block {b : CodeBlock} {blocks : List CodeBlock} {chunks : List Chunk}
      (gap source rest : List Char) (hsource : source ≠ []) (hstart : b.start = source ++ rest)
      (hstop : b.stop = rest) (hrest : CutAt blocks rest chunks) :
      CutAt (b :: blocks) (gap ++ source ++ rest)
        (Chunk.ofMarkdown gap ++ .code (trimRight b.text) :: chunks)

/-- Blocks in order cut a text into its parts. -/
theorem cutAt_cutBlocks (h : InOrder blocks t) : CutAt blocks t (cutBlocks blocks t) := by
  induction blocks generalizing t with
  | nil => exact .last t
  | cons b blocks ih =>
    obtain ⟨⟨gap, rfl⟩, hstop, hblocks⟩ := h
    obtain ⟨source, hsource⟩ := hstop.suffix
    have hne : source ≠ [] := by
      rintro rfl
      rw [List.nil_append] at hsource
      exact absurd (hsource ▸ hstop.length_lt) (Nat.lt_irrefl _)
    rw [cutBlocks, upTo_append]
    conv in gap ++ b.start => rw [← hsource, ← List.append_assoc]
    exact .block gap source b.stop hne hsource.symm rfl (ih hblocks)

/-! ## Reading event by event -/

/-- What is reported of a document, as far as its parts hang on it. -/
inductive Event where
  /-- A block of code starts. It stands between two numbers of bytes. -/
  | codeStart (info : List Char) (first last : Nat)
  /-- Some text, which is code in a block of code. -/
  | text (content : List Char)
  | codeEnd
  /-- Any other part of the document starts, ends or stands here. -/
  | other
deriving DecidableEq

/-- What is known between two events. -/
structure Reader where
  /-- How many bytes stand in front of what is to be the next slice. -/
  first : Nat
  /-- The text so far of the example that is being read. -/
  code? : Option (List Char)
  chunks : List Chunk

/-- Read an event of a document. This fails where the document has no such slice. -/
def Reader.step? (s : List Char) (r : Reader) : Event → Option Reader
  | .codeStart info first last =>
    if isPlaygroundInfo info then
      (slice? r.first first s).map fun gap =>
        { first := last, code? := some [], chunks := r.chunks ++ Chunk.ofMarkdown gap }
    else some r
  | .text content => some { r with code? := r.code?.map (· ++ content) }
  | .codeEnd =>
    match r.code? with
    | some code => some { r with code? := none, chunks := r.chunks ++ [.code (trimRight code)] }
    | none => some r
  | .other => some r

/-- The parts of a document from the events that are reported of it. -/
def chunksOfEvents? (s : List Char) (events : List Event) : Option (List Chunk) := do
  let r ← events.foldlM (Reader.step? s) ⟨0, none, []⟩
  let gap ← slice? r.first (byteSize s) s
  pure (r.chunks ++ Chunk.ofMarkdown gap)

/-- Which events may be reported of a text with the given blocks of code: the text of a block comes
in pieces between its start and its end, and what is not code is reported anyhow. -/
inductive Reports (s : List Char) : List CodeBlock → List Event → Prop
  | nil : Reports s [] []
  | other {blocks : List CodeBlock} {events : List Event} (h : Reports s blocks events) :
      Reports s blocks (.other :: events)
  | text {blocks : List CodeBlock} {events : List Event} (content : List Char)
      (h : Reports s blocks events) : Reports s blocks (.text content :: events)
  | code {b : CodeBlock} {blocks : List CodeBlock} {events : List Event} (pieces : List (List Char))
      (hpieces : pieces.flatten = b.text) (h : Reports s blocks events) :
      Reports s (b :: blocks)
        (.codeStart b.info (byteAt b.start s) (byteAt b.stop s) ::
          (pieces.map .text ++ .codeEnd :: events))

/-- Pieces of text are put one behind the other in the example that is read, and dropped if none
is. -/
lemma foldlM_text (s : List Char) (r : Reader) (pieces : List (List Char)) :
    (pieces.map .text).foldlM (Reader.step? s) r =
      some { r with code? := r.code?.map (· ++ pieces.flatten) } := by
  induction pieces generalizing r with
  | nil => cases r with | mk first code? chunks => cases code? <;> simp
  | cons piece pieces ih =>
    rw [List.map_cons, List.foldlM_cons, Reader.step?, Option.bind_eq_bind, Option.bind_some, ih]
    cases r with | mk first code? chunks => cases code? <;> simp

/-- A block that is no example changes nothing. -/
lemma foldlM_foreign {info : List Char} (h : isPlaygroundInfo info = false) (first last from' : Nat)
    (pieces : List (List Char)) (done : List Chunk) (events : List Event) :
    (.codeStart info first last :: (pieces.map .text ++ .codeEnd :: events)).foldlM
        (Reader.step? s) ⟨from', none, done⟩ =
      events.foldlM (Reader.step? s) ⟨from', none, done⟩ := by
  simp [List.foldlM_append, foldlM_text, Reader.step?, h]

/-- An example is read together with the slice in front of it. -/
lemma foldlM_example {info gap : List Char} (h : isPlaygroundInfo info = true)
    {first last from' : Nat} (hgap : slice? from' first s = some gap) (pieces : List (List Char))
    (done : List Chunk) (events : List Event) :
    (.codeStart info first last :: (pieces.map .text ++ .codeEnd :: events)).foldlM
        (Reader.step? s) ⟨from', none, done⟩ =
      events.foldlM (Reader.step? s)
        ⟨last, none, done ++ Chunk.ofMarkdown gap ++ [.code (trimRight pieces.flatten)]⟩ := by
  simp [List.foldlM_append, foldlM_text, Reader.step?, h, hgap]

/-- From a place on that no example goes beyond, reading the events that are left adds the parts of
the text that is left. -/
lemma exists_foldlM_eq_some {events : List Event} (hevents : Reports s blocks events)
    (hblocks : InOrder (blocks.filter fun b => isPlaygroundInfo b.info) t) (ht : t <:+ s)
    (done : List Chunk) :
    ∃ r gap, events.foldlM (Reader.step? s) ⟨byteAt t s, none, done⟩ = some r ∧
      slice? r.first (byteSize s) s = some gap ∧
      r.chunks ++ Chunk.ofMarkdown gap =
        done ++ cutBlocks (blocks.filter fun b => isPlaygroundInfo b.info) t := by
  induction hevents generalizing t done with
  | nil =>
    have hend : byteSize s = byteAt [] s := by simp [byteAt, upTo]
    refine ⟨_, t, rfl, ?_, rfl⟩
    rw [hend, slice?_byteAt List.nil_suffix ht]
    simp [upTo]
  | other _ ih => exact ih hblocks ht done
  | text content _ ih => exact ih hblocks ht done
  | @code b blocks events pieces hpieces _ ih =>
    by_cases hinfo : isPlaygroundInfo b.info = true
    · rw [List.filter_cons_of_pos (by simpa using hinfo)] at hblocks ⊢
      obtain ⟨hstart, hstop, hblocks⟩ := hblocks
      obtain ⟨r, gap, hr, hgap, hchunks⟩ := ih hblocks (hstop.suffix.trans (hstart.trans ht))
        (done ++ Chunk.ofMarkdown (upTo b.start t) ++ [.code (trimRight b.text)])
      refine ⟨r, gap, ?_, hgap, ?_⟩
      · rw [foldlM_example hinfo (slice?_byteAt hstart ht), hpieces, hr]
      · rw [hchunks, cutBlocks]
        simp
    · rw [List.filter_cons_of_neg (by simpa using hinfo)] at hblocks ⊢
      rw [foldlM_foreign (by simpa using hinfo)]
      exact ih hblocks ht done

/-- Reading events gives the parts that are cut out at the blocks of code. -/
theorem chunksOfEvents?_eq_cutBlocks {events : List Event} (hevents : Reports s blocks events)
    (hblocks : InOrder (blocks.filter fun b => isPlaygroundInfo b.info) s) :
    chunksOfEvents? s events =
      some (cutBlocks (blocks.filter fun b => isPlaygroundInfo b.info) s) := by
  obtain ⟨r, gap, hr, hgap, hchunks⟩ := exists_foldlM_eq_some hevents hblocks List.suffix_rfl []
  have hfirst : byteAt s s = 0 := by simp [byteAt]
  rw [hfirst] at hr
  rw [chunksOfEvents?, hr, Option.bind_eq_bind, Option.bind_some, hgap, Option.bind_eq_bind,
    Option.bind_some, hchunks]
  rfl

/-! ## The parts -/

/-- Whether a part of a document is shown as it is. -/
def Chunk.isMarkdown : Chunk → Bool
  | .code _ => false
  | .markdown _ => true

/-- Text between examples is one part, trimmed, or none. -/
lemma Chunk.ofMarkdown_cases (text : List Char) :
    ofMarkdown text = [] ∨ ∃ content, ofMarkdown text = [markdown content] ∧ IsTrimmed content := by
  unfold ofMarkdown
  split
  · exact .inl rfl
  next hne =>
    exact .inr ⟨_, rfl, isTrimmed_trim hne⟩

lemma isTrimmed_of_mem_ofMarkdown {content : List Char}
    (h : Chunk.markdown content ∈ Chunk.ofMarkdown text) : IsTrimmed content := by
  rcases Chunk.ofMarkdown_cases text with hnil | ⟨content', hone, htrimmed⟩
  · rw [hnil] at h
    cases h
  · rw [hone, List.mem_singleton] at h
    cases h
    exact htrimmed

/-- Text that is shown as it is has something that is not blank at both ends. -/
lemma isTrimmed_of_mem_cutBlocks {content : List Char}
    (h : Chunk.markdown content ∈ cutBlocks blocks t) : IsTrimmed content := by
  induction blocks generalizing t with
  | nil => exact isTrimmed_of_mem_ofMarkdown h
  | cons b blocks ih =>
    rw [cutBlocks, List.mem_append, List.mem_cons] at h
    rcases h with h | h | h
    · exact isTrimmed_of_mem_ofMarkdown h
    · cases h
    · exact ih h

/-- Between two texts that are shown as they are there is an example. -/
lemma isChain_cutBlocks (blocks : List CodeBlock) (t : List Char) :
    (cutBlocks blocks t).IsChain fun a b => ¬(a.isMarkdown ∧ b.isMarkdown) := by
  induction blocks generalizing t with
  | nil =>
    rw [cutBlocks]
    rcases Chunk.ofMarkdown_cases t with hnil | ⟨content, hone, -⟩
    · simp [hnil]
    · simp [hone]
  | cons b blocks ih =>
    have hcode : (.code (trimRight b.text) :: cutBlocks blocks b.stop : List Chunk).IsChain
        fun a b => ¬(a.isMarkdown ∧ b.isMarkdown) := by
      refine List.isChain_cons.2 ⟨fun chunk _ h => ?_, ih b.stop⟩
      cases h.1
    rw [cutBlocks]
    rcases Chunk.ofMarkdown_cases (upTo b.start t) with hnil | ⟨content, hone, -⟩
    · rwa [hnil]
    · rw [hone, List.singleton_append]
      refine List.isChain_cons.2 ⟨fun chunk hchunk h => ?_, hcode⟩
      cases hchunk
      cases h.2

/-- Code with a word `static` in its info string is no example, also if no language is named. -/
lemma isPlaygroundInfo_eq_false {info word : List Char} (hword : word ∈ words info)
    (hstatic : word.map Char.toLower = "static".toList) : isPlaygroundInfo info = false := by
  cases hwords : words info with
  | nil =>
    rw [hwords] at hword
    cases hword
  | cons first more =>
    rw [hwords] at hword
    rw [isPlaygroundInfo, Bool.and_eq_false_iff]
    rcases List.mem_cons.1 hword with rfl | hword
    · left
      rw [Language.ofInfo, hwords]
      simp only [hstatic]
      rfl
    · right
      have hany : (words info).tail.any (·.map Char.toLower == "static".toList) = true := by
        rw [hwords]
        exact List.any_eq_true.2 ⟨word, hword, by simp [hstatic]⟩
      rw [Mode.ofInfo, if_pos hany]
      rfl

/-- A document is cut at its examples. They start and stop between characters, one behind the other,
so reading event by event meets no slice that the document does not have. Of the parts no two that
are shown as they are stand side by side and none is blank, and nothing is code that is only to be
shown. -/
theorem chunks_partition (source : String) (p : Params) :
    let s := p.substitute source.toList
    let blocks := (codeBlocks s).filter fun b => isPlaygroundInfo b.info
    (∀ b ∈ blocks,
      splitAtByte? (byteAt b.start s) s = some (upTo b.start s, b.start) ∧
        splitAtByte? (byteAt b.stop s) s = some (upTo b.stop s, b.stop) ∧
        byteAt b.start s < byteAt b.stop s) ∧
    (blocks.Pairwise fun a b => byteAt a.stop s ≤ byteAt b.start s) ∧
    (∀ events, Reports s (codeBlocks s) events →
      chunksOfEvents? s events = some (chunks source p)) ∧
    CutAt blocks s (chunks source p) ∧
    ((chunks source p).IsChain fun a b => ¬(a.isMarkdown ∧ b.isMarkdown)) ∧
    (∀ content, .markdown content ∈ chunks source p → IsTrimmed content) ∧
    (∀ b ∈ codeBlocks s,
      (∃ word ∈ words b.info, word.map Char.toLower = "static".toList) → b ∉ blocks) := by
  intro s blocks
  have hblocks : InOrder blocks s := (inOrder_codeBlocks s).filter _
  refine ⟨fun b hb => ?_, pairwise_byteAt hblocks List.suffix_rfl, fun events hevents => ?_,
    cutAt_cutBlocks hblocks, isChain_cutBlocks blocks s,
    fun content => isTrimmed_of_mem_cutBlocks, ?_⟩
  · obtain ⟨hstart, hstop⟩ := hblocks.of_mem hb
    exact ⟨splitAtByte?_byteAt hstart, splitAtByte?_byteAt (hstop.suffix.trans hstart),
      byteAt_lt hstop hstart⟩
  · exact chunksOfEvents?_eq_cutBlocks hevents hblocks
  · rintro b - ⟨word, hword, hstatic⟩ hb
    have hinfo := (List.mem_filter.1 hb).2
    rw [isPlaygroundInfo_eq_false hword hstatic] at hinfo
    cases hinfo

/-- A document with an example, and with code in an item of a list that is only shown. -/
def sampleDocument : String :=
  "Use it:\n\n\x60\x60\x60js\nrun()\n\x60\x60\x60\n\n- so\n  \x60\x60\x60css\n  a\n  \x60\x60\x60\n"

/-- What is reported of `sampleDocument`, the example in two pieces. -/
def sampleEvents : List Event := [
  .other, .text "Use it:".toList, .other,
  .codeStart "js".toList 9 24, .text "run".toList, .text "()\n".toList, .codeEnd,
  .other, .text "so".toList,
  .codeStart "css".toList 33 49, .text "a\n".toList, .codeEnd, .other]

lemma sampleEvents_reports :
    Reports sampleDocument.toList (codeBlocks sampleDocument.toList) sampleEvents := by
  have hblocks : codeBlocks sampleDocument.toList =
      [⟨"js".toList, "run()\n".toList, sampleDocument.toList.drop 9, sampleDocument.toList.drop 24⟩,
        ⟨"css".toList, "a\n".toList, sampleDocument.toList.drop 33,
          sampleDocument.toList.drop 49⟩] := by
    decide +kernel
  rw [hblocks]
  refine .other (.text _ (.other ?_))
  refine .code ["run".toList, "()\n".toList] rfl (.other (.text _ ?_))
  exact .code ["a\n".toList] rfl (.other .nil)

/-- Reading `sampleDocument` event by event. -/
theorem chunks_partition_sample :
    chunksOfEvents? sampleDocument.toList sampleEvents =
      some (chunks sampleDocument ⟨none, none⟩) :=
  (chunks_partition sampleDocument ⟨none, none⟩).2.2.1 sampleEvents sampleEvents_reports

end StyleGuide.Examples
