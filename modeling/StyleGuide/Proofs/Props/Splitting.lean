import StyleGuide.Proofs.Props.Parts

/-!
# Splitting is exact

A text is split at its separators at depth zero and nowhere else, and nothing but these is lost: the
pieces with the separators between them are the text again. The depth is what counting gives, which
are the brackets that are opened in front of a place, less those that are closed there; it may be
below zero. Behind a separator a text looks as from its start, so no piece can be split any further.

## Main definitions

* `Bracket.unclosed`: the brackets that a text opens, less those that it closes.
* `Bracket.Division`: a text told apart at some of its characters.
* `Bracket.IsSeparator`: a character is a separator at depth zero.

## Main results

* `Bracket.depthAfter_eq_unclosed`: the depth at the end of a text, by counting.
* `Bracket.exists_division_splitFrom`: what is taken out between the pieces of a text.
* `Bracket.split_of_mem_split`: no piece is split any further.
* `Bracket.split_exact`: all of it for the separators of members and alternatives.
-/

namespace StyleGuide.Bracket

open scoped List

variable {p : Place} {sep : Char → Bool} {cs before piece : List Char} {b c x : Char}

/-! ## Depth by counting -/

/-- The characters that close a bracket, but for those that are part of an arrow. -/
def canClose (c : Char) : Bool := isCloser c || c = '>'

/-- The brackets that a text opens, less those that it closes. The `>` of an arrow closes none. -/
def unclosed (cs : List Char) : Int :=
  cs.countP isOpening - (cs.countP canClose - (cs.zip cs.tail).count ('=', '>'))

lemma next_depth_eq (p : Place) (c : Char) :
    (p.next c).depth =
      p.depth + (if isOpening c then 1 else 0) - (if canClose c then 1 else 0) +
        if p.before = some '=' ∧ c = '>' then 1 else 0 := by
  simp only [Place.next, isClosing, canClose, isCloser, isOpening]
  grind

/-- The depth behind a text that has a character in front of it, with which an arrow may begin. -/
lemma after_depth_eq_count (hb : p.before = some b) (cs : List Char) :
    (p.after cs).depth =
      p.depth + cs.countP isOpening - cs.countP canClose + ((b :: cs).zip cs).count ('=', '>') := by
  induction cs generalizing p b with
  | nil => simp
  | cons c cs ih =>
    have hc : (p.next c).before = some c := rfl
    rw [after_cons, ih hc, next_depth_eq, hb, List.zip_cons_cons, List.countP_cons,
      List.countP_cons, List.count_cons]
    grind

/-- The depth at the end of a text is found by counting its brackets and arrows. -/
theorem depthAfter_eq_unclosed (cs : List Char) : depthAfter cs = unclosed cs := by
  cases cs with
  | nil => rfl
  | cons c cs =>
    have hc : (start.next c).before = some c := rfl
    have hnone : ¬ (start.before = some '=' ∧ c = '>') := by simp [start]
    have hzero : start.depth = 0 := rfl
    rw [depthAfter_eq, after_cons, after_depth_eq_count hc, next_depth_eq, if_neg hnone, hzero,
      unclosed, List.tail_cons, List.countP_cons, List.countP_cons]
    grind

/-! ## Divisions -/

/-- A text told apart at some of its characters: each of these with what stands between it and the
one before, and what stands behind the last one. -/
structure Division where
  front : List (List Char × Char)
  last : List Char

namespace Division

/-- What stands between the characters that are taken out. -/
def pieces (d : Division) : List (List Char) := d.front.map Prod.fst ++ [d.last]

/-- The whole text. -/
def text (d : Division) : List Char := d.front.flatMap (fun e => e.1 ++ [e.2]) ++ d.last

/-- The character `c` is taken out where `before` is in front of it in the whole text. -/
inductive TakesOut : Division → List Char → Char → Prop
  | here {before : List Char} {c : Char} {front : List (List Char × Char)} {last : List Char} :
      TakesOut ⟨(before, c) :: front, last⟩ before c
  | there {piece before : List Char} {s c : Char} {front : List (List Char × Char)}
      {last : List Char} (h : TakesOut ⟨front, last⟩ before c) :
      TakesOut ⟨(piece, s) :: front, last⟩ (piece ++ s :: before) c

/-- The same text with one character more in front, which is taken out. -/
def takeOut (x : Char) (d : Division) : Division := ⟨([], x) :: d.front, d.last⟩

/-- The same text with one character more in front, which goes to the first piece. -/
def keep (x : Char) : Division → Division
  | ⟨[], last⟩ => ⟨[], x :: last⟩
  | ⟨(piece, c) :: front, last⟩ => ⟨(x :: piece, c) :: front, last⟩

variable {d : Division}

lemma pieces_takeOut (x : Char) (d : Division) : (d.takeOut x).pieces = [] :: d.pieces := rfl

lemma text_takeOut (x : Char) (d : Division) : (d.takeOut x).text = x :: d.text := by
  simp [takeOut, text]

lemma pieces_keep (x : Char) (d : Division) : (d.keep x).pieces = prepend [x] d.pieces := by
  obtain ⟨front, last⟩ := d
  cases front <;> rfl

lemma text_keep (x : Char) (d : Division) : (d.keep x).text = x :: d.text := by
  obtain ⟨front, last⟩ := d
  cases front <;> simp [keep, text]

lemma takesOut_takeOut :
    (d.takeOut x).TakesOut before c ↔
      before = [] ∧ c = x ∨ ∃ rest, before = x :: rest ∧ d.TakesOut rest c := by
  constructor
  · intro h
    cases h with
    | here => exact .inl ⟨rfl, rfl⟩
    | there h => exact .inr ⟨_, rfl, h⟩
  · rintro (⟨rfl, rfl⟩ | ⟨rest, rfl, h⟩)
    · exact .here
    · exact .there h

lemma takesOut_keep :
    (d.keep x).TakesOut before c ↔ ∃ rest, before = x :: rest ∧ d.TakesOut rest c := by
  obtain ⟨_ | ⟨⟨piece, s⟩, front⟩, last⟩ := d
  · constructor
    · intro h
      cases h
    · rintro ⟨rest, -, h⟩
      cases h
  · constructor
    · intro h
      cases h with
      | here => exact ⟨piece, rfl, .here⟩
      | there h => exact ⟨_, rfl, .there h⟩
    · rintro ⟨rest, rfl, h⟩
      cases h with
      | here => exact .here
      | there h => exact .there h

end Division

/-! ## What is taken out -/

/-- The character `c` behind `before` is a separator at depth zero. -/
structure IsSeparator (sep : Char → Bool) (p : Place) (cs before : List Char) (c : Char) :
    Prop where
  isPrefix : before ++ [c] <+: cs
  sep : sep c = true
  depth : (p.after before).depth = 0

lemma isSeparator_cons :
    IsSeparator sep p (x :: cs) before c ↔
      (before = [] ∧ c = x) ∧ p.depth = 0 ∧ sep x = true ∨
        ∃ rest, before = x :: rest ∧ IsSeparator sep (p.next x) cs rest c := by
  cases before with
  | nil =>
    constructor
    · rintro ⟨hstarts, hsep, hdepth⟩
      obtain ⟨rfl, -⟩ := List.cons_prefix_cons.1 hstarts
      exact .inl ⟨⟨rfl, rfl⟩, hdepth, hsep⟩
    · rintro (⟨⟨-, rfl⟩, hdepth, hsep⟩ | ⟨rest, hrest, -⟩)
      · exact ⟨List.cons_prefix_cons.2 ⟨rfl, List.nil_prefix⟩, hsep, hdepth⟩
      · cases hrest
  | cons y before =>
    constructor
    · rintro ⟨hstarts, hsep, hdepth⟩
      obtain ⟨rfl, htail⟩ := List.cons_prefix_cons.1 hstarts
      exact .inr ⟨before, rfl, htail, hsep, hdepth⟩
    · rintro (⟨⟨hnil, -⟩, -⟩ | ⟨rest, hrest, h⟩)
      · cases hnil
      · cases hrest
        exact ⟨List.cons_prefix_cons.2 ⟨rfl, h.isPrefix⟩, h.sep, h.depth⟩

/-- Between the pieces of a text its separators at depth zero are taken out, and nothing else. -/
theorem exists_division_splitFrom (sep : Char → Bool) (p : Place) (cs : List Char) :
    ∃ d : Division, d.pieces = splitFrom sep p cs ∧ d.text = cs ∧
      ∀ before c, d.TakesOut before c ↔ IsSeparator sep p cs before c := by
  induction cs generalizing p with
  | nil =>
    refine ⟨⟨[], []⟩, rfl, rfl, fun before c => ⟨fun h => ?_, fun h => ?_⟩⟩
    · cases h
    · simpa using h.isPrefix
  | cons x cs ih =>
    obtain ⟨d, hpieces, htext, hout⟩ := ih (p.next x)
    by_cases hx : p.depth = 0 ∧ sep x = true
    · refine ⟨d.takeOut x, ?_, by rw [d.text_takeOut, htext], fun before c => ?_⟩
      · rw [d.pieces_takeOut, hpieces, splitFrom_cons hx.1 hx.2]
      · simp only [d.takesOut_takeOut, isSeparator_cons, hout, hx, and_self, and_true]
    · refine ⟨d.keep x, ?_, by rw [d.text_keep, htext], fun before c => ?_⟩
      · have hclean : Along (fun d c => d = 0 → sep c = false) p [x] := ⟨by simpa using hx, trivial⟩
        rw [d.pieces_keep, hpieces]
        exact (splitFrom_append hclean cs).symm
      · simp only [d.takesOut_keep, isSeparator_cons, hout, hx, and_false, false_or]

/-! ## Pieces by themselves -/

lemma Division.sublist_text {d : Division} (h : piece ∈ d.pieces) : piece <+ d.text := by
  rcases List.mem_append.1 h with h | h
  · obtain ⟨e, he, rfl⟩ := List.mem_map.1 h
    obtain ⟨front, back, heq⟩ := List.append_of_mem he
    rw [Division.text, heq]
    simp
  · rw [List.mem_singleton.1 h]
    exact List.sublist_append_right _ _

lemma sublist_of_mem_split (h : piece ∈ split sep cs) : piece <+ cs := by
  obtain ⟨d, hpieces, htext, -⟩ := exists_division_splitFrom sep start cs
  rw [split, ← hpieces] at h
  rw [← htext]
  exact d.sublist_text h

/-- The first piece has no separators at depth zero, and the others have none from their starts. -/
lemma along_of_splitFrom (hneutral : ∀ c, sep c = true → isNeutral c = true)
    {pieces : List (List Char)} (h : splitFrom sep p cs = piece :: pieces) :
    Along (fun d c => d = 0 → sep c = false) p piece ∧ ∀ q ∈ pieces, Clean sep q := by
  induction cs generalizing p piece pieces with
  | nil =>
    cases h
    exact ⟨trivial, by simp⟩
  | cons x cs ih =>
    by_cases hx : p.depth = 0 ∧ sep x = true
    · obtain ⟨first, rest, hrest⟩ := List.exists_cons_of_ne_nil (splitFrom_ne_nil sep start cs)
      have hfresh : (p.next x).IsFresh := isFresh_next hx.1 (hneutral x hx.2)
      rw [splitFrom_cons hx.1 hx.2, hfresh.splitFrom_eq, split, hrest] at h
      cases h
      exact ⟨trivial, List.forall_mem_cons.2 (ih hrest)⟩
    · obtain ⟨first, rest, hrest⟩ :=
        List.exists_cons_of_ne_nil (splitFrom_ne_nil sep (p.next x) cs)
      rw [splitFrom, if_neg hx, hrest] at h
      cases h
      obtain ⟨hfirst, hrest⟩ := ih hrest
      exact ⟨⟨by simpa using hx, hfirst⟩, hrest⟩

/-- A piece of a text is split no further. -/
theorem split_of_mem_split (hneutral : ∀ c, sep c = true → isNeutral c = true)
    (h : piece ∈ split sep cs) : split sep piece = [piece] := by
  obtain ⟨first, rest, hrest⟩ := List.exists_cons_of_ne_nil (splitFrom_ne_nil sep start cs)
  have hclean : ∀ q ∈ first :: rest, Clean sep q :=
    List.forall_mem_cons.2 (along_of_splitFrom hneutral hrest)
  rw [split, hrest] at h
  exact splitFrom_eq_singleton (hclean piece h)

/-- Whatever the separators among `;`, `,` and `|`: the pieces of a text and the characters taken
out between them are the text. A character is taken out if and only if it is a separator in front of
which as many brackets are closed as opened, so that no such separator is left in a piece. And a
piece by itself is split no further, whether the brackets of the text are balanced or not. -/
theorem split_exact {sep : Char → Bool} (hsep : ∀ c, sep c = true → c ∈ [';', ',', '|'])
    (cs : List Char) :
    (∃ d : Division, d.pieces = split sep cs ∧ d.text = cs ∧
        ∀ before c, d.TakesOut before c ↔
          before ++ [c] <+: cs ∧ sep c = true ∧ unclosed before = 0) ∧
      ∀ piece ∈ split sep cs, split sep piece = [piece] := by
  have hneutral : ∀ c ∈ [';', ',', '|'], isNeutral c = true := List.all_eq_true.1 (by decide)
  refine ⟨?_, fun piece => split_of_mem_split fun c hc => hneutral c (hsep c hc)⟩
  obtain ⟨d, hpieces, htext, hout⟩ := exists_division_splitFrom sep start cs
  refine ⟨d, hpieces, htext, fun before c => ?_⟩
  rw [hout, ← depthAfter_eq_unclosed]
  exact ⟨fun h => ⟨h.isPrefix, h.sep, h.depth⟩, fun h => ⟨h.1, h.2.1, h.2.2⟩⟩

/-- An arrow, a comma between brackets, and one behind a bracket that closes nothing. -/
def unopenedText : List Char := "f: () => é; at: Map<a, b>, c: ], d".toList

theorem split_exact_unopened :
    (∀ c, Member.endsDeclaration c = true → c ∈ [';', ',', '|']) ∧
      split Member.endsDeclaration unopenedText =
        ["f: () => é".toList, " at: Map<a, b>".toList, " c: ], d".toList] ∧
      (∃ d : Division, d.pieces = split Member.endsDeclaration unopenedText ∧
        d.text = unopenedText ∧
        ∀ before c, d.TakesOut before c ↔
          before ++ [c] <+: unopenedText ∧ Member.endsDeclaration c = true ∧ unclosed before = 0) ∧
      ∀ piece ∈ split Member.endsDeclaration unopenedText,
        split Member.endsDeclaration piece = [piece] := by
  have hsep : ∀ c, Member.endsDeclaration c = true → c ∈ [';', ',', '|'] := by
    intro c hc
    simp only [Member.endsDeclaration, Bool.or_eq_true, decide_eq_true_eq] at hc
    rcases hc with rfl | rfl <;> decide
  exact ⟨hsep, by decide, split_exact hsep unopenedText⟩

end StyleGuide.Bracket
