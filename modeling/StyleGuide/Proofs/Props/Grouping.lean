import Mathlib.Data.List.Flatten
import StyleGuide.Proofs.Props.Separators
import StyleGuide.Proofs.Props.Splitting

/-!
# Grouping lines into members

The lines of a body are trimmed, joined where a type goes on, held back while a bracket is open, and
split at separators. All of this only moves blanks and separators: a declaration is what is left of
the body when characters are left out, and where there are no comments, the declarations say one
after another what the body says.

## Main definitions

* `Member.held`: the lines that are held back.
* `Member.substance`: a text without its blanks and separators.
* `Member.IsUncommented`: no comment can begin in a text.
* `Member.Retells`: pieces that are declarations and say what a text says.

## Main results

* `Member.sublist_of_mem_pieces`: nothing is put into a declaration.
* `Member.substance_joinedLines`: joining lines keeps what they say.
* `Member.retells_group`: so does holding them back while a bracket is open.
* `Member.pieces_retell`: the pieces of a body without comments.
-/

namespace StyleGuide.Member

open StyleGuide.Bracket

open scoped List

variable {body buffer cs text xs ys : List Char} {ps qs : List Piece} {c : Char}

/-! ## What is left of a body -/

/-- A line that goes on with the one above stands behind a line break as before. -/
lemma endLines_addLine (done : List (List Char)) (line : List Char) :
    endLines (addLine done line).reverse = endLines (done.reverse ++ [line]) := by
  cases done with
  | nil => rfl
  | cons above others =>
    rw [addLine]
    split <;> simp [endLines]

lemma endLines_foldl_addLine (texts done : List (List Char)) :
    endLines (texts.foldl addLine done).reverse = endLines (done.reverse ++ texts) := by
  induction texts generalizing done with
  | nil => simp
  | cons text texts ih =>
    rw [List.foldl_cons, ih, endLines_append, endLines_addLine, ← endLines_append,
      List.append_assoc, List.singleton_append]

/-- Joined lines are what is left of a body without blanks at the ends of lines, and blank lines. -/
lemma endLines_joinedLines_sublist (body : List Char) :
    endLines (joinedLines body) <+ body ++ ['\n'] := by
  have htrim : endLines ((cut (· == '\n') body).map trim) <+ endLines (cut (· == '\n') body) := by
    rw [endLines, List.flatMap_map]
    exact .flatMap_right _ fun line _ => (trim_sublist line).append_right ['\n']
  rw [joinedLines_eq, endLines_foldl_addLine, ← endLines_cut]
  exact (List.filter_sublist.flatMap _).trans htrim

/-- The lines that are held back, with a line break behind each of them. -/
def held (buffer : List Char) : List Char := if buffer = [] then [] else buffer ++ ['\n']

lemma held_sublist (buffer : List Char) : held buffer <+ buffer ++ ['\n'] := by
  rw [held]
  split
  · exact List.nil_sublist _
  · exact List.Sublist.refl _

lemma glue_append_endLines (buffer line : List Char) (rest : List (List Char)) :
    glue buffer line ++ ['\n'] ++ endLines rest = held buffer ++ endLines (line :: rest) := by
  rw [glue, held, endLines_cons]
  split <;> simp

lemma sublist_of_mem_declarationsOf (h : text ∈ declarationsOf cs) : text <+ cs := by
  rw [declarationsOf_eq] at h
  obtain ⟨piece, hpiece, rfl⟩ := List.mem_map.1 (List.mem_filter.1 h).1
  exact (trim_sublist piece).trans (sublist_of_mem_split hpiece)

lemma sublist_of_mem_group_nil (h : .declaration text ∈ group buffer []) :
    text ++ ['\n'] <+ held buffer := by
  rw [group] at h
  split_ifs at h with hsome
  · cases h
  · cases List.mem_singleton.1 h
    have hbuffer : buffer ≠ [] := by
      rintro rfl
      exact hsome rfl
    rw [held, if_neg hbuffer]
    exact (trim_sublist buffer).append_right _

/-- A declaration is left of the lines that are held back and of those that are still to come. -/
lemma sublist_of_mem_group {lines : List (List Char)} (h : .declaration text ∈ group buffer lines) :
    text ++ ['\n'] <+ held buffer ++ endLines lines := by
  induction lines generalizing buffer with
  | nil => exact (sublist_of_mem_group_nil h).trans (List.sublist_append_left _ _)
  | cons line rest ih =>
    have hrest (hmem : .declaration text ∈ group [] rest) :
        text ++ ['\n'] <+ held buffer ++ endLines (line :: rest) := by
      have hbehind : endLines rest <+ endLines (line :: rest) := List.sublist_append_right _ _
      exact (ih hmem).trans (hbehind.trans (List.sublist_append_right _ _))
    rw [group] at h
    split at h
    -- The line is a comment.
    · split at h
      · exact hrest h
      · exact hrest ((List.mem_cons.1 h).resolve_left (by simp))
    · rw [← glue_append_endLines]
      split at h
      -- The line is held back.
      · exact (ih h).trans ((held_sublist _).append_right _)
      · rcases List.mem_append.1 h with h | h
        · obtain ⟨part, hpart, heq⟩ := List.mem_map.1 h
          cases heq
          have hdeclared := (sublist_of_mem_declarationsOf hpart).append_right ['\n']
          exact hdeclared.trans (List.sublist_append_left _ _)
        · rw [glue_append_endLines]
          exact hrest h

/-- A declaration is what is left of the body when characters are left out. -/
theorem sublist_of_mem_pieces (h : .declaration text ∈ pieces body) : text <+ body := by
  have hgroup : text ++ ['\n'] <+ [] ++ endLines (joinedLines body) := sublist_of_mem_group h
  exact (List.append_sublist_append_right ['\n']).1
    (hgroup.trans (endLines_joinedLines_sublist body))

/-! ## Substance -/

/-- What a text says, without the blanks and the separators of declarations. -/
def substance (cs : List Char) : List Char := cs.filter fun c => !isBlank c && !endsDeclaration c

@[simp] lemma substance_nil : substance [] = [] := rfl

@[simp] lemma substance_append (xs ys : List Char) :
    substance (xs ++ ys) = substance xs ++ substance ys :=
  List.filter_append xs ys

lemma substance_cons_of (h : isBlank c = true ∨ endsDeclaration c = true) (cs : List Char) :
    substance (c :: cs) = substance cs :=
  List.filter_cons_of_neg (by rcases h with h | h <;> simp [h])

lemma substance_of_isBlank (h : ∀ c ∈ cs, isBlank c = true) : substance cs = [] :=
  List.filter_eq_nil_iff.2 fun c hc => by simp [h c hc]

/-- Texts that say the same have the same characters, but for blanks and separators. -/
lemma mem_iff_of_substance_eq (h : substance xs = substance ys) (hblank : isBlank c = false)
    (hends : endsDeclaration c = false) : c ∈ xs ↔ c ∈ ys := by
  have hmem : ∀ cs, c ∈ substance cs ↔ c ∈ cs := by simp [substance, hblank, hends]
  rw [← hmem xs, h, hmem ys]

lemma substance_trim (cs : List Char) : substance (trim cs) = substance cs := by
  obtain ⟨before, hbefore, hfront⟩ := exists_eq_append_trimLeft cs
  obtain ⟨after, hafter, hback⟩ := exists_eq_trimRight_append (trimLeft cs)
  conv_rhs => rw [hfront, hback, substance_append, substance_append,
    substance_of_isBlank hbefore, substance_of_isBlank hafter]
  simp [trim]

/-- Trimming texts, and leaving out blank ones, keeps what they say together. -/
lemma substance_flatten_trim (texts : List (List Char)) :
    substance ((texts.map trim).filter (· ≠ [])).flatten = substance texts.flatten := by
  induction texts with
  | nil => rfl
  | cons text texts ih =>
    rw [List.flatten_cons, substance_append, ← ih, ← substance_trim text, List.map_cons]
    by_cases hblank : trim text = []
    · simp [hblank]
    · rw [List.filter_cons_of_pos (by simpa using hblank), List.flatten_cons, substance_append]

/-- Line breaks between texts say nothing. -/
lemma substance_joinWith (texts : List (List Char)) :
    substance (joinWith '\n' texts) = substance texts.flatten := by
  fun_induction joinWith '\n' texts with
  | case1 => rfl
  | case2 text => simp
  | case3 text next texts ih =>
    rw [List.flatten_cons, substance_append, substance_append, substance_cons_of (.inl rfl), ih]

/-- Where only separators are taken out, the pieces say what the whole text says. -/
lemma substance_division {d : Division}
    (h : ∀ before c, d.TakesOut before c → endsDeclaration c = true) :
    substance d.pieces.flatten = substance d.text := by
  obtain ⟨front, last⟩ := d
  induction front with
  | nil => simp [Division.pieces, Division.text]
  | cons e front ih =>
    obtain ⟨piece, s⟩ := e
    have hs : endsDeclaration s = true := h piece s .here
    have hrest := ih fun before c hout => h (piece ++ s :: before) c (.there hout)
    simp only [Division.pieces, Division.text] at hrest ⊢
    simp [substance_cons_of (.inr hs), ← hrest]

/-- What is split off keeps what the text says. -/
lemma substance_split (cs : List Char) :
    substance (split endsDeclaration cs).flatten = substance cs := by
  obtain ⟨d, hpieces, htext, hout⟩ := exists_division_splitFrom endsDeclaration start cs
  rw [split, ← hpieces, substance_division fun before c h => ((hout before c).1 h).sep, htext]

lemma substance_parts (cs : List Char) :
    substance (parts endsDeclaration cs).flatten = substance cs := by
  rw [parts, substance_flatten_trim, substance_split]

/-! ## Lines -/

lemma substance_addLine (done : List (List Char)) (line : List Char) :
    substance (addLine done line).reverse.flatten = substance (done.reverse.flatten ++ line) := by
  cases done with
  | nil => simp [addLine]
  | cons above others =>
    rw [addLine]
    split
    · simp [substance_cons_of (.inl (show isBlank '\n' = true from rfl))]
    · simp

lemma substance_foldl_addLine (texts done : List (List Char)) :
    substance (texts.foldl addLine done).reverse.flatten =
      substance (done.reverse.flatten ++ texts.flatten) := by
  induction texts generalizing done with
  | nil => simp
  | cons text texts ih =>
    rw [List.foldl_cons, ih, substance_append, substance_addLine]
    simp

/-- Joining lines keeps what the body says. -/
theorem substance_joinedLines (body : List Char) :
    substance (joinedLines body).flatten = substance body := by
  rw [joinedLines_eq, substance_foldl_addLine, lines]
  simp only [List.reverse_nil, List.flatten_nil, List.nil_append]
  rw [substance_flatten_trim, ← substance_joinWith, joinWith_cut]

lemma substance_glue (buffer line : List Char) :
    substance (glue buffer line) = substance (buffer ++ line) := by
  rw [glue]
  split
  · simp_all
  · simp [substance_cons_of (.inl (show isBlank '\n' = true from rfl))]

/-! ## Texts without comments -/

/-- No comment can begin in a text. -/
def IsUncommented (cs : List Char) : Prop := '/' ∉ cs ∧ '*' ∉ cs

lemma IsUncommented.commentText?_eq (h : IsUncommented cs) : commentText? cs = none := by
  cases cs with
  | nil => rfl
  | cons c cs =>
    obtain ⟨hslash, hstar⟩ := h
    simp only [List.mem_cons, not_or] at hslash hstar
    simp [commentText?, List.isPrefixOf, hslash.1, hstar.1]

/-- What says the same has no comments either. -/
lemma IsUncommented.congr (h : IsUncommented ys) (heq : substance xs = substance ys) :
    IsUncommented xs :=
  ⟨mt (mem_iff_of_substance_eq heq rfl rfl).1 h.1, mt (mem_iff_of_substance_eq heq rfl rfl).1 h.2⟩

lemma IsUncommented.of_mem_flatten {texts : List (List Char)} (h : IsUncommented texts.flatten)
    (hcs : cs ∈ texts) : IsUncommented cs :=
  ⟨fun hslash => h.1 (List.mem_flatten_of_mem hcs hslash),
    fun hstar => h.2 (List.mem_flatten_of_mem hcs hstar)⟩

lemma isUncommented_append :
    IsUncommented (xs ++ ys) ↔ IsUncommented xs ∧ IsUncommented ys := by
  simp only [IsUncommented, List.mem_append, not_or]
  tauto

/-- The pieces are declarations alone, which say one after another what a text says. -/
def Retells (ps : List Piece) (cs : List Char) : Prop :=
  ∃ texts : List (List Char), ps = texts.map .declaration ∧ (∀ text ∈ texts, IsTrimmed text) ∧
    substance texts.flatten = substance cs

lemma Retells.append (hps : Retells ps xs) (hqs : Retells qs ys) :
    Retells (ps ++ qs) (xs ++ ys) := by
  obtain ⟨texts, rfl, htrimmed, hsame⟩ := hps
  obtain ⟨texts', rfl, htrimmed', hsame'⟩ := hqs
  refine ⟨texts ++ texts', by simp, fun text htext => ?_, by simp [hsame, hsame']⟩
  exact (List.mem_append.1 htext).elim (htrimmed text) (htrimmed' text)

lemma Retells.congr (h : Retells ps ys) (heq : substance xs = substance ys) : Retells ps xs := by
  obtain ⟨texts, hps, htrimmed, hsame⟩ := h
  exact ⟨texts, hps, htrimmed, hsame.trans heq.symm⟩

/-- Lines that belong together are split into declarations. -/
lemma retells_declarationsOf (h : IsUncommented cs) :
    Retells ((declarationsOf cs).map .declaration) cs := by
  have hparts : IsUncommented (parts endsDeclaration cs).flatten := h.congr (substance_parts cs)
  rw [declarationsOf_eq_parts fun part hpart => (hparts.of_mem_flatten hpart).commentText?_eq]
  exact ⟨_, rfl, fun text htext => isTrimmed_of_mem_parts htext, substance_parts cs⟩

/-- What is left in the buffer at the end is a declaration. -/
lemma retells_group_nil (buffer : List Char) : Retells (group buffer []) buffer := by
  rw [group]
  split_ifs with hblank
  · exact ⟨[], rfl, by simp, by rw [← substance_trim buffer, hblank]; rfl⟩
  · exact ⟨[trim buffer], rfl, List.forall_mem_singleton.2 (isTrimmed_trim hblank), by
      simp [substance_trim]⟩

/-- Holding lines back while a bracket is open keeps what they say. -/
theorem retells_group {lines : List (List Char)} (h : IsUncommented (buffer ++ lines.flatten)) :
    Retells (group buffer lines) (buffer ++ lines.flatten) := by
  -- The buffer and the lines that are left say together what is still to be said.
  induction lines generalizing buffer with
  | nil => simpa using retells_group_nil buffer
  | cons line rest ih =>
    have hglue : substance (glue buffer line ++ rest.flatten) =
        substance (buffer ++ (line :: rest).flatten) := by
      simp [substance_glue]
    have hfree := h.congr hglue
    have hline : commentText? line = none := by
      simp only [List.flatten_cons, isUncommented_append] at h
      exact h.2.1.commentText?_eq
    have hcomment : ownComment? buffer line = none := by
      rw [ownComment?, hline, ite_self]
    rw [group, hcomment]
    simp only
    split
    · exact (ih hfree).congr hglue.symm
    · obtain ⟨hbuffer, hrest⟩ := isUncommented_append.1 hfree
      exact ((retells_declarationsOf hbuffer).append (ih hrest)).congr hglue.symm

/-- Where no comment can begin in a body, its pieces are declarations, each of them trimmed and not
empty. But for blanks and separators they have the characters of the body, in their order, whether
its brackets are balanced or not. -/
theorem pieces_retell (hslash : '/' ∉ body) (hstar : '*' ∉ body) :
    ∃ texts : List (List Char), pieces body = texts.map .declaration ∧
      (∀ text ∈ texts, IsTrimmed text) ∧ substance texts.flatten = substance body := by
  have hbody : IsUncommented body := ⟨hslash, hstar⟩
  have hjoined := substance_joinedLines body
  have hgroup : Retells (pieces body) ([] ++ (joinedLines body).flatten) :=
    retells_group (hbody.congr hjoined)
  exact hgroup.congr hjoined.symm

/-- A body with a bracket that closes nothing, and with one that is never closed. -/
def openBody : List Char :=
  "\n  at: Point],\n  size: \x7b a: number;\n    b: string,\n  tag?: T\n".toList

/-- The body is
```

  at: Point],
  size: { a: number;
    b: string,
  tag?: T

```
The comma behind the first line does not end a declaration, and all lines behind it are left in the
buffer at the end. -/
theorem pieces_retell_openBody :
    '/' ∉ openBody ∧ '*' ∉ openBody ∧
      pieces openBody =
        ["at: Point],".toList, "size: \x7b a: number;\nb: string,\ntag?: T".toList].map
          .declaration ∧
      substance openBody = "at:Point]size:\x7ba:numberb:stringtag?:T".toList ∧
      ∃ texts : List (List Char), pieces openBody = texts.map .declaration ∧
        (∀ text ∈ texts, IsTrimmed text) ∧ substance texts.flatten = substance openBody :=
  ⟨by decide, by decide, by decide, by decide, pieces_retell (by decide) (by decide)⟩

end StyleGuide.Member
