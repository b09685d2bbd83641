import Mathlib.Tactic.Lemma
import StyleGuide.Text.Blank
import StyleGuide.Text.Word

/-!
# Trimmed texts

A text with something that is not blank at both ends is what trimming leaves of it, also when blanks
stand around it.

## Main definitions

* `IsTrimmed`: neither end of a text is blank, and there is something between them.

## Main results

* `isBlank_eq_false_of_isWord`: word characters are not blank.
* `IsTrimmed.trim_eq`, `IsTrimmed.trim_around`: trimming such a text, and one with blanks around it.
* `isTrimmed_trim`: trimming leaves such a text, or nothing.
-/

namespace StyleGuide

open scoped List

/-! ## Blank characters -/

/-- The codes of the blank characters. -/
def blankCodes : List Nat :=
  [0x09, 0x0A, 0x0B, 0x0C, 0x0D, 0x20, 0x85, 0xA0, 0x1680, 0x2000, 0x2001, 0x2002, 0x2003, 0x2004,
    0x2005, 0x2006, 0x2007, 0x2008, 0x2009, 0x200A, 0x2028, 0x2029, 0x202F, 0x205F, 0x3000]

lemma toNat_mem_blankCodes {c : Char} (h : isBlank c = true) : c.toNat ∈ blankCodes := by
  simp only [isBlank, Bool.or_eq_true, Bool.and_eq_true, decide_eq_true_eq, beq_iff_eq] at h
  simp only [blankCodes, List.mem_cons, List.not_mem_nil, or_false]
  omega

/-- What no blank character has tells that a character is not blank. -/
lemma isBlank_eq_false {f : Char → Bool} (hf : ∀ n ∈ blankCodes, f (Char.ofNat n) = false)
    {c : Char} (h : f c = true) : isBlank c = false := by
  cases hblank : isBlank c with
  | false => rfl
  | true =>
    have hcode := hf c.toNat (toNat_mem_blankCodes hblank)
    rw [Char.ofNat_toNat, h] at hcode
    cases hcode

/-- Word characters are not blank. -/
theorem isBlank_eq_false_of_isWord {c : Char} (h : isWord c = true) : isBlank c = false :=
  isBlank_eq_false (by decide +kernel) h

/-- Letters of ASCII are not blank. -/
theorem isBlank_eq_false_of_isAlpha {c : Char} (h : c.isAlpha = true) : isBlank c = false :=
  isBlank_eq_false (by decide) h

/-- What none of some characters has. -/
lemma eq_false_of_any {f : Char → Bool} {cs : List Char} (h : cs.any f = false) {c : Char}
    (hc : c ∈ cs) : f c = false :=
  Bool.eq_false_iff.2 (List.any_eq_false.1 h c hc)

/-! ## Dropping blanks -/

variable {cs bs : List Char}

lemma trimLeft_cons {c : Char} (h : isBlank c = false) : trimLeft (c :: cs) = c :: cs :=
  List.dropWhile_cons_of_neg (by simp [h])

lemma trimLeft_cons_of_isBlank {c : Char} (h : isBlank c = true) :
    trimLeft (c :: cs) = trimLeft cs :=
  List.dropWhile_cons_of_pos h

lemma trimLeft_append_left (h : ∀ b ∈ bs, isBlank b = true) : trimLeft (bs ++ cs) = trimLeft cs :=
  List.dropWhile_append_of_pos h

lemma trimRight_append_right (h : ∀ b ∈ bs, isBlank b = true) :
    trimRight (cs ++ bs) = trimRight cs := by
  unfold trimRight
  rw [List.reverse_append, List.dropWhile_append_of_pos fun b hb => h b (List.mem_reverse.1 hb)]

/-- What is not blank does not stand between blanks. -/
lemma not_mem_blanks {c : Char} (h : ∀ b ∈ bs, isBlank b = true) (hc : isBlank c = false) :
    c ∉ bs := by
  intro hmem
  rw [h c hmem] at hc
  cases hc

lemma trimLeft_sublist (cs : List Char) : trimLeft cs <+ cs := List.dropWhile_sublist _

lemma trimRight_sublist (cs : List Char) : trimRight cs <+ cs := by
  have hdrop : (cs.reverse.dropWhile isBlank).reverse <+ cs.reverse.reverse :=
    (List.dropWhile_sublist _).reverse
  rwa [List.reverse_reverse] at hdrop

lemma trim_sublist (cs : List Char) : trim cs <+ cs :=
  (trimRight_sublist _).trans (trimLeft_sublist cs)

/-- What is dropped from the front is blank. -/
lemma exists_eq_append_trimLeft (cs : List Char) :
    ∃ bs, (∀ b ∈ bs, isBlank b = true) ∧ cs = bs ++ trimLeft cs :=
  ⟨cs.takeWhile isBlank, fun _ hb => List.all_eq_true.1 List.all_takeWhile _ hb,
    List.takeWhile_append_dropWhile.symm⟩

/-- What is dropped from the end is blank. -/
lemma exists_eq_trimRight_append (cs : List Char) :
    ∃ bs, (∀ b ∈ bs, isBlank b = true) ∧ cs = trimRight cs ++ bs := by
  refine ⟨(cs.reverse.takeWhile isBlank).reverse, fun b hb => ?_, ?_⟩
  · exact List.all_eq_true.1 List.all_takeWhile b (List.mem_reverse.1 hb)
  · rw [trimRight, ← List.reverse_append, List.takeWhile_append_dropWhile, List.reverse_reverse]

/-- What is not blank is not dropped. -/
lemma mem_trim_iff {c : Char} (hc : isBlank c = false) : c ∈ trim cs ↔ c ∈ cs := by
  obtain ⟨before, hbefore, hfront⟩ := exists_eq_append_trimLeft cs
  obtain ⟨after, hafter, hback⟩ := exists_eq_trimRight_append (trimLeft cs)
  have hcs : c ∈ before ++ (trim cs ++ after) ↔ c ∈ cs := by
    rw [trim, ← hback, ← hfront]
  rw [← hcs]
  simp [not_mem_blanks hbefore hc, not_mem_blanks hafter hc]

lemma trimRight_trimRight (cs : List Char) : trimRight (trimRight cs) = trimRight cs := by
  obtain ⟨bs, hblank, hcs⟩ := exists_eq_trimRight_append cs
  calc
    trimRight (trimRight cs) = trimRight (trimRight cs ++ bs) :=
      (trimRight_append_right hblank).symm
    _ = trimRight cs := by rw [← hcs]

/-- Blanks at the end of a text do not matter. -/
lemma trim_append_right (h : ∀ b ∈ bs, isBlank b = true) : trim (cs ++ bs) = trim cs := by
  have hdrop : bs.dropWhile isBlank = [] := by
    rw [← List.append_nil bs, List.dropWhile_append_of_pos h, List.dropWhile_nil]
  have hleft : trimLeft (cs ++ bs) = if (trimLeft cs).isEmpty then [] else trimLeft cs ++ bs := by
    rw [trimLeft, List.dropWhile_append, hdrop]
    rfl
  rw [trim, trim, hleft]
  split
  next hempty =>
    rw [List.isEmpty_iff.1 hempty]
  · exact trimRight_append_right h

/-- Blanks in front of a text do not matter. -/
lemma trim_append_left (h : ∀ b ∈ bs, isBlank b = true) : trim (bs ++ cs) = trim cs := by
  rw [trim, trimLeft_append_left h, trim]

/-- Only what stands behind a character that is not blank can be dropped at the end. -/
lemma trimRight_append_cons {c : Char} (h : isBlank c = false) (cs ds : List Char) :
    trimRight (cs ++ c :: ds) = cs ++ c :: trimRight ds := by
  have hstop : ¬ isBlank c = true := by simp [h]
  have hreverse : (cs ++ c :: ds).reverse = ds.reverse ++ c :: cs.reverse := by simp
  rw [trimRight, trimRight, hreverse, List.dropWhile_append, List.dropWhile_cons_of_neg hstop]
  split
  next hempty =>
    simp [List.isEmpty_iff.1 hempty]
  · simp

lemma trimRight_cons {c : Char} (h : isBlank c = false) (cs : List Char) :
    trimRight (c :: cs) = c :: trimRight cs :=
  trimRight_append_cons h [] cs

lemma trim_cons {c : Char} (h : isBlank c = false) (cs : List Char) :
    trim (c :: cs) = c :: trimRight cs := by
  rw [trim, trimLeft_cons h, trimRight_cons h]

lemma trimRight_concat {c : Char} (h : isBlank c = false) : trimRight (cs ++ [c]) = cs ++ [c] :=
  trimRight_append_cons h cs []

/-! ## Trimmed texts -/

/-- There is something, and neither end is blank. -/
structure IsTrimmed (cs : List Char) : Prop where
  head : ∃ c, cs.head? = some c ∧ isBlank c = false
  last : ∃ c, cs.getLast? = some c ∧ isBlank c = false

instance : Decidable (IsTrimmed cs) :=
  decidable_of_iff (cs.head?.any (!isBlank ·) = true ∧ cs.getLast?.any (!isBlank ·) = true) <| by
    simp only [Option.any_eq_true, Bool.not_eq_true']
    exact ⟨fun h => ⟨h.1, h.2⟩, fun h => ⟨h.1, h.2⟩⟩

namespace IsTrimmed

lemma ne_nil (h : IsTrimmed cs) : cs ≠ [] := by
  obtain ⟨c, hc, -⟩ := h.head
  rintro rfl
  cases hc

lemma trimLeft_eq (h : IsTrimmed cs) : trimLeft cs = cs := by
  obtain ⟨c, hc, hblank⟩ := h.head
  obtain ⟨rest, rfl⟩ := List.head?_eq_some_iff.1 hc
  exact trimLeft_cons hblank

lemma trimRight_eq (h : IsTrimmed cs) : trimRight cs = cs := by
  obtain ⟨c, hc, hblank⟩ := h.last
  obtain ⟨front, rfl⟩ := List.getLast?_eq_some_iff.1 hc
  exact trimRight_concat hblank

lemma trim_eq (h : IsTrimmed cs) : trim cs = cs := by
  rw [trim, h.trimLeft_eq, h.trimRight_eq]

/-- Blanks around a trimmed text are dropped. -/
lemma trim_around {before after : List Char} (h : IsTrimmed cs)
    (hbefore : ∀ b ∈ before, isBlank b = true) (hafter : ∀ b ∈ after, isBlank b = true) :
    trim (before ++ cs ++ after) = cs := by
  rw [trim_append_right hafter, trim_append_left hbefore, h.trim_eq]

/-- What stands between two trimmed texts does not matter. -/
lemma append {front middle back : List Char} (hfront : IsTrimmed front) (hback : IsTrimmed back) :
    IsTrimmed (front ++ middle ++ back) := by
  obtain ⟨c, hc, hhead⟩ := hfront.head
  obtain ⟨d, hd, hlast⟩ := hback.last
  refine ⟨⟨c, ?_, hhead⟩, ⟨d, ?_, hlast⟩⟩
  · simp [List.head?_append, hc]
  · simp [List.getLast?_append, hd]

/-- Something between trimmed texts leaves them trimmed together. -/
lemma intercalate (between : List Char) {parts : List (List Char)} (hne : parts ≠ [])
    (h : ∀ part ∈ parts, IsTrimmed part) : IsTrimmed (between.intercalate parts) := by
  induction parts with
  | nil => exact absurd rfl hne
  | cons p parts ih =>
    obtain ⟨hp, hparts⟩ := List.forall_mem_cons.1 h
    cases parts with
    | nil => rwa [List.intercalate_singleton]
    | cons q parts =>
      rw [List.intercalate_cons_cons]
      exact hp.append (ih (List.cons_ne_nil q parts) hparts)

lemma of_ends {c d : Char} {middle : List Char} (hc : isBlank c = false) (hd : isBlank d = false) :
    IsTrimmed (c :: (middle ++ [d])) :=
  ⟨⟨c, rfl, hc⟩, ⟨d, by simp [List.getLast?_cons], hd⟩⟩

end IsTrimmed

/-- What is left of a text when characters of a kind are dropped starts with another character. -/
lemma exists_head?_of_dropWhile {p : Char → Bool} (h : cs.dropWhile p ≠ []) :
    ∃ c, (cs.dropWhile p).head? = some c ∧ p c = false :=
  ⟨_, List.head?_eq_some_head h, List.head_dropWhile_not p h⟩

/-- What trimming leaves is trimmed, if it leaves something. -/
lemma isTrimmed_trim (h : trim cs ≠ []) : IsTrimmed (trim cs) := by
  have hfront : trim cs <+: trimLeft cs := by
    rw [← List.reverse_suffix, trim, trimRight, List.reverse_reverse]
    exact List.dropWhile_suffix _
  constructor
  · obtain ⟨c, rest, htrim⟩ := List.exists_cons_of_ne_nil h
    obtain ⟨back, hback⟩ := hfront
    rw [htrim, List.cons_append] at hback
    have hleft : cs.dropWhile isBlank ≠ [] := by
      change trimLeft cs ≠ []
      rw [← hback]
      exact List.cons_ne_nil _ _
    obtain ⟨d, hd, hblank⟩ := exists_head?_of_dropWhile hleft
    change (trimLeft cs).head? = some d at hd
    rw [← hback] at hd
    exact ⟨d, by rw [htrim]; exact hd, hblank⟩
  · rw [trim, trimRight, Ne, List.reverse_eq_nil_iff] at h
    obtain ⟨c, hc, hblank⟩ := exists_head?_of_dropWhile h
    exact ⟨c, by rw [trim, trimRight, List.getLast?_reverse, hc], hblank⟩

lemma trim_trim (cs : List Char) : trim (trim cs) = trim cs := by
  by_cases h : trim cs = []
  · rw [h]
    rfl
  · exact (isTrimmed_trim h).trim_eq

end StyleGuide
