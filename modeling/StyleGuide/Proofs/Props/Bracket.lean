import Mathlib.Tactic.Common
import StyleGuide.Proofs.Text.Blank
import StyleGuide.Props.Bracket

/-!
# Balanced texts

In a balanced text the depth never falls below zero and is zero at the end. Such a text looks the
same from any depth: only what is before it can matter, and only to a `>`, which it does not start
with.

## Main definitions

* `Bracket.Along`: something holds of every character and the depth before it.
* `Bracket.Balanced`: the balanced texts.
* `Bracket.Clean`: no separator stands at depth zero.

## Main results

* `Bracket.along_iff_start`: a text from another depth.
* `Bracket.Balanced.append`, `Bracket.Balanced.wrap`: how balanced texts are put together.
* `Bracket.splitFrom_append`: a text without separators goes to the first piece of what follows.
* `Bracket.enclosed?_wrap`: what is inside a pair of brackets.
-/

namespace StyleGuide.Bracket

variable {P Q : Int → Char → Prop} {p : Place} {cs xs ys : List Char} {c : Char}

/-! ## Places -/

/-- The place behind a text. -/
def Place.after (p : Place) (cs : List Char) : Place := cs.foldl Place.next p

@[simp] lemma after_nil (p : Place) : p.after [] = p := rfl

@[simp] lemma after_cons (p : Place) (c : Char) (cs : List Char) :
    p.after (c :: cs) = (p.next c).after cs := rfl

@[simp] lemma after_append (p : Place) (xs ys : List Char) :
    p.after (xs ++ ys) = (p.after xs).after ys :=
  List.foldl_append

lemma depthAfter_eq (cs : List Char) : depthAfter cs = (start.after cs).depth := rfl

/-- The same place with more brackets open around it. -/
def Place.shift (p : Place) (d : Int) : Place := ⟨p.depth + d, p.before⟩

@[simp] lemma shift_depth (p : Place) (d : Int) : (p.shift d).depth = p.depth + d := rfl

lemma shift_next (p : Place) (d : Int) (c : Char) : (p.shift d).next c = (p.next c).shift d := by
  simp only [Place.next, Place.shift, Place.mk.injEq, and_true]
  grind

lemma shift_after (p : Place) (d : Int) (cs : List Char) :
    (p.shift d).after cs = (p.after cs).shift d := by
  induction cs generalizing p with
  | nil => rfl
  | cons c cs ih => rw [after_cons, after_cons, shift_next, ih]

/-- Only an angle bracket depends on what is before it. -/
lemma next_eq_shift (p : Place) (hc : c ≠ '>') : p.next c = (start.shift p.depth).next c := by
  simp [Place.next, Place.shift, start, isClosing, hc]

/-- At depth zero it is as at the start. -/
lemma next_eq_start_next (hc : c ≠ '>') (hp : p.depth = 0) : p.next c = start.next c := by
  rw [next_eq_shift p hc, hp]
  rfl

/-- Whether a character takes part in the nesting. -/
def isBracket (c : Char) : Bool :=
  isOpening c || c = ')' || c = ']' || c = '\x7d' || c = '>'

/-- A property that no bracket has. -/
lemma isBracket_eq_false_of {f : Char → Bool}
    (hf : ['(', '[', '\x7b', '<', ')', ']', '\x7d', '>'].any f = false) (hc : f c = true) :
    isBracket c = false := by
  cases hbracket : isBracket c with
  | false => rfl
  | true =>
    simp only [isBracket, isOpening, Bool.or_eq_true, decide_eq_true_eq] at hbracket
    have hfalse : f c = false := eq_false_of_any hf (by simp; tauto)
    rw [hc] at hfalse
    cases hfalse

lemma next_depth_of_not_isBracket (p : Place) (hc : isBracket c = false) :
    (p.next c).depth = p.depth := by
  simp only [isBracket, Bool.or_eq_false_iff, decide_eq_false_iff_not] at hc
  simp [Place.next, isClosing, hc]

lemma next_depth_of_isOpening (p : Place) (hc : isOpening c = true) :
    (p.next c).depth = p.depth + 1 := by
  simp [Place.next, hc]

/-- The brackets that close whatever is before them. -/
def isCloser (c : Char) : Bool := c = ')' || c = ']' || c = '\x7d'

lemma next_depth_of_isCloser (p : Place) (hc : isCloser c = true) :
    (p.next c).depth = p.depth - 1 := by
  simp only [isCloser, Bool.or_eq_true, decide_eq_true_eq] at hc
  rcases hc with (rfl | rfl) | rfl <;> rfl

/-! ## Along a text -/

/-- `P` holds of every character of a text and the depth before it. -/
def Along (P : Int → Char → Prop) (p : Place) : List Char → Prop
  | [] => True
  | c :: rest => P p.depth c ∧ Along P (p.next c) rest

instance decidableAlong [∀ d c, Decidable (P d c)] : ∀ p cs, Decidable (Along P p cs)
  | _, [] => .isTrue trivial
  | p, c :: rest =>
    have := decidableAlong (p.next c) rest
    inferInstanceAs (Decidable (P p.depth c ∧ Along P (p.next c) rest))

lemma along_append : Along P p (xs ++ ys) ↔ Along P p xs ∧ Along P (p.after xs) ys := by
  induction xs generalizing p with
  | nil => simp [Along]
  | cons c xs ih => simp [Along, ih, and_assoc]

lemma Along.imp (hPQ : ∀ d c, P d c → Q d c) (h : Along P p cs) : Along Q p cs := by
  induction cs generalizing p with
  | nil => trivial
  | cons c cs ih => exact ⟨hPQ _ _ h.1, ih h.2⟩

lemma along_of_forall (h : ∀ c ∈ cs, ∀ d, P d c) : Along P p cs := by
  induction cs generalizing p with
  | nil => trivial
  | cons c cs ih =>
    exact ⟨h c List.mem_cons_self _, ih fun x hx => h x (List.mem_cons_of_mem _ hx)⟩

lemma along_shift {d : Int} : Along P (p.shift d) cs ↔ Along (fun e => P (e + d)) p cs := by
  induction cs generalizing p with
  | nil => rfl
  | cons c cs ih => rw [Along, Along, shift_next, ih, shift_depth]

/-- A text that does not start with `>` is the same from any place, up to the depth there. -/
lemma along_iff_start (hcs : cs.head? ≠ some '>') :
    Along P p cs ↔ Along (fun d => P (d + p.depth)) start cs := by
  rw [← along_shift]
  cases cs with
  | nil => rfl
  | cons c cs =>
    have hc : c ≠ '>' := by simpa using hcs
    rw [Along, Along, next_eq_shift p hc, shift_depth]
    simp [start]

lemma after_depth_eq (hcs : cs.head? ≠ some '>') (p : Place) :
    (p.after cs).depth = p.depth + depthAfter cs := by
  rw [depthAfter_eq]
  cases cs with
  | nil => simp [start]
  | cons c cs =>
    have hc : c ≠ '>' := by simpa using hcs
    rw [after_cons, next_eq_shift p hc, ← after_cons, shift_after, shift_depth, Int.add_comm]

/-! ## Balanced texts -/

/-- The depth never falls below zero, and is zero at the end. -/
structure Balanced (cs : List Char) : Prop where
  nonneg : Along (fun d _ => 0 ≤ d) start cs
  closes : depthAfter cs = 0

instance : Decidable (Balanced cs) :=
  decidable_of_iff (Along (fun d _ => 0 ≤ d) start cs ∧ depthAfter cs = 0)
    ⟨fun h => ⟨h.1, h.2⟩, fun h => ⟨h.1, h.2⟩⟩

lemma Balanced.head_ne (h : Balanced cs) : cs.head? ≠ some '>' := by
  intro hhead
  obtain ⟨rest, rfl⟩ := List.head?_eq_some_iff.1 hhead
  have hnonneg := h.nonneg
  cases rest with
  | nil => exact absurd h.closes (by decide)
  | cons c rest =>
    have hlow : (0 : Int) ≤ -1 := hnonneg.2.1
    exact absurd hlow (by decide)

lemma Balanced.after_depth (h : Balanced cs) (p : Place) : (p.after cs).depth = p.depth := by
  rw [after_depth_eq h.head_ne, h.closes, Int.add_zero]

/-- From any place on, the depth does not fall below the depth there. -/
lemma Balanced.along (h : Balanced cs) (p : Place) : Along (fun d _ => p.depth ≤ d) p cs := by
  rw [along_iff_start h.head_ne]
  exact h.nonneg.imp fun d _ hd => by omega

lemma balanced_nil : Balanced [] := ⟨trivial, rfl⟩

lemma Balanced.append (hx : Balanced xs) (hy : Balanced ys) : Balanced (xs ++ ys) := by
  have hdepth : (start.after xs).depth = 0 := hx.closes
  refine ⟨along_append.2 ⟨hx.nonneg, ?_⟩, ?_⟩
  · exact (hy.along _).imp fun d _ hd => by omega
  · rw [depthAfter_eq, after_append, hy.after_depth, hdepth]

lemma balanced_of_forall (h : ∀ c ∈ cs, isBracket c = false) : Balanced cs := by
  induction cs with
  | nil => exact balanced_nil
  | cons c cs ih =>
    have hc : isBracket c = false := h c List.mem_cons_self
    have hone : Balanced [c] := ⟨⟨Int.le_refl _, trivial⟩, next_depth_of_not_isBracket start hc⟩
    exact hone.append (ih fun x hx => h x (List.mem_cons_of_mem _ hx))

/-- Brackets around a balanced text. -/
lemma Balanced.wrap {opening closing : Char} (h : Balanced cs) (hopen : isOpening opening = true)
    (hclose : isCloser closing = true) : Balanced (opening :: (cs ++ [closing])) := by
  have hin : (start.next opening).depth = 1 := next_depth_of_isOpening start hopen
  have hout : ((start.next opening).after cs).depth = 1 := (h.after_depth _).trans hin
  refine ⟨⟨Int.le_refl _, along_append.2 ⟨?_, ?_⟩⟩, ?_⟩
  · exact (h.along _).imp fun d _ hd => by omega
  · exact ⟨by omega, trivial⟩
  · rw [depthAfter_eq, after_cons, after_append, after_cons, after_nil,
      next_depth_of_isCloser _ hclose, hout]
    rfl

/-! ## Separators -/

variable {sep : Char → Bool}

/-- No separator stands at depth zero. -/
def Clean (sep : Char → Bool) (cs : List Char) : Prop :=
  Along (fun d c => d = 0 → sep c = false) start cs

instance : Decidable (Clean sep cs) :=
  inferInstanceAs (Decidable (Along (fun d c => d = 0 → sep c = false) start cs))

lemma clean_of_forall (h : ∀ c ∈ cs, sep c = false) : Clean sep cs :=
  along_of_forall fun c hc _ _ => h c hc

/-- At depth zero a text is as clean as at the start. -/
lemma along_iff_clean (hcs : cs.head? ≠ some '>') (hp : p.depth = 0) :
    Along (fun d c => d = 0 → sep c = false) p cs ↔ Clean sep cs := by
  rw [along_iff_start hcs, hp]
  simp only [Int.add_zero, Clean]

lemma Clean.along (h : Clean sep cs) (hcs : cs.head? ≠ some '>') (hp : p.depth = 0) :
    Along (fun d c => d = 0 → sep c = false) p cs :=
  (along_iff_clean hcs hp).2 h

lemma Clean.append (hx : Clean sep xs) (hy : Clean sep ys) (hbalanced : Balanced xs)
    (hhead : ys.head? ≠ some '>') : Clean sep (xs ++ ys) :=
  along_append.2 ⟨hx, hy.along hhead hbalanced.closes⟩

/-- Inside of brackets there may be separators. -/
lemma Balanced.clean_wrap {opening closing : Char} (h : Balanced cs)
    (hopen : isOpening opening = true) (hsep : sep opening = false) :
    Clean sep (opening :: (cs ++ [closing])) := by
  have hin : (start.next opening).depth = 1 := next_depth_of_isOpening start hopen
  refine ⟨fun _ => hsep, along_append.2 ⟨?_, fun hzero => ?_, trivial⟩⟩
  · exact (h.along _).imp fun d c hd hzero => by omega
  · rw [h.after_depth, hin] at hzero
    exact absurd hzero (by decide)

/-- Put a text in front of the first of some pieces. -/
def prepend (cs : List Char) : List (List Char) → List (List Char)
  | [] => [cs]
  | piece :: pieces => (cs ++ piece) :: pieces

/-- A text without separators at depth zero goes to the first piece of what follows. -/
theorem splitFrom_append (h : Along (fun d c => d = 0 → sep c = false) p xs) (ys : List Char) :
    splitFrom sep p (xs ++ ys) = prepend xs (splitFrom sep (p.after xs) ys) := by
  induction xs generalizing p with
  | nil =>
    obtain ⟨piece, pieces, hs⟩ := List.exists_cons_of_ne_nil (splitFrom_ne_nil sep p ys)
    simp [hs, prepend]
  | cons c xs ih =>
    obtain ⟨hc, hxs⟩ := h
    obtain ⟨piece, pieces, hs⟩ :=
      List.exists_cons_of_ne_nil (splitFrom_ne_nil sep ((p.next c).after xs) ys)
    rw [List.cons_append, splitFrom, if_neg (by simpa using hc), ih hxs, after_cons, hs]
    rfl

lemma splitFrom_eq_singleton (h : Along (fun d c => d = 0 → sep c = false) p cs) :
    splitFrom sep p cs = [cs] := by
  have happend := splitFrom_append h []
  simpa [splitFrom, prepend] using happend

/-- A separator at depth zero ends a piece. -/
lemma splitFrom_cons (hp : p.depth = 0) (hc : sep c = true) :
    splitFrom sep p (c :: cs) = [] :: splitFrom sep (p.next c) cs :=
  if_pos ⟨hp, hc⟩

/-- At depth zero a text is split as at the start. -/
lemma splitFrom_eq_split (hcs : cs.head? ≠ some '>') (hp : p.depth = 0) :
    splitFrom sep p cs = split sep cs := by
  cases cs with
  | nil => rfl
  | cons c cs =>
    have hc : c ≠ '>' := by simpa using hcs
    rw [split, splitFrom, splitFrom, next_eq_start_next hc hp, hp]
    rfl

/-- A text without separators at depth zero goes to the last piece of what is before it. -/
lemma exists_splitFrom_append (h : Along (fun d c => d = 0 → sep c = false) (p.after xs) ys) :
    ∃ front last, splitFrom sep p xs = front ++ [last] ∧
      splitFrom sep p (xs ++ ys) = front ++ [last ++ ys] := by
  induction xs generalizing p with
  | nil => exact ⟨[], [], rfl, by simpa using splitFrom_eq_singleton h⟩
  | cons c xs ih =>
    obtain ⟨front, last, hxs, hboth⟩ := ih h
    rw [List.cons_append, splitFrom, splitFrom, hxs, hboth]
    split
    · exact ⟨[] :: front, last, rfl, rfl⟩
    · cases front with
      | nil => exact ⟨[], c :: last, rfl, rfl⟩
      | cons piece front => exact ⟨(c :: piece) :: front, last, rfl, rfl⟩

/-- What is no separator starts the first piece. -/
lemma exists_splitFrom_cons (hc : sep c = false) (p : Place) (cs : List Char) :
    ∃ piece pieces, splitFrom sep p (c :: cs) = (c :: piece) :: pieces := by
  obtain ⟨piece, pieces, hs⟩ := List.exists_cons_of_ne_nil (splitFrom_ne_nil sep (p.next c) cs)
  exact ⟨piece, pieces, by rw [splitFrom, if_neg (by simp [hc]), hs]⟩

/-- The first separator at depth zero ends the first piece, whatever stands behind the text. -/
lemma exists_splitFrom_eq_cons (h : ¬ Along (fun d c => d = 0 → sep c = false) p xs) :
    ∃ front s back, xs = front ++ s :: back ∧ sep s = true ∧
      ∀ ys, splitFrom sep p (xs ++ ys) =
        front :: splitFrom sep ((p.after front).next s) (back ++ ys) := by
  induction xs generalizing p with
  | nil => exact absurd trivial h
  | cons c xs ih =>
    by_cases hc : p.depth = 0 ∧ sep c = true
    · exact ⟨[], c, xs, rfl, hc.2, fun ys => if_pos hc⟩
    · have hrest : ¬ Along (fun d c => d = 0 → sep c = false) (p.next c) xs := fun hrest =>
        h ⟨by simpa using hc, hrest⟩
      obtain ⟨front, s, back, rfl, hs, hsplit⟩ := ih hrest
      refine ⟨c :: front, s, back, rfl, hs, fun ys => ?_⟩
      rw [List.cons_append, splitFrom, if_neg hc, hsplit ys]
      rfl

/-! ## Arrows and pairs of brackets -/

lemma hasArrowFrom_append (p : Place) (xs ys : List Char) :
    hasArrowFrom p (xs ++ ys) = (hasArrowFrom p xs || hasArrowFrom (p.after xs) ys) := by
  induction xs generalizing p with
  | nil => rfl
  | cons c xs ih => rw [List.cons_append, hasArrowFrom, hasArrowFrom, ih, Bool.or_assoc]; rfl

/-- At depth zero the arrows are the same as at the start. -/
lemma hasArrowFrom_eq_hasArrow (hcs : cs.head? ≠ some '>') (hp : p.depth = 0) :
    hasArrowFrom p cs = hasArrow cs := by
  cases cs with
  | nil => rfl
  | cons c cs =>
    have hc : c ≠ '>' := by simpa using hcs
    rw [hasArrow, hasArrowFrom, hasArrowFrom, next_eq_start_next hc hp, beq_eq_false_iff_ne.2 hc]
    simp

/-- An arrow ends in an angle bracket. -/
lemma hasArrowFrom_eq_false (h : Along (fun d c => d = 0 → (c == '>') = false) p cs) :
    hasArrowFrom p cs = false := by
  induction cs generalizing p with
  | nil => rfl
  | cons c cs ih =>
    obtain ⟨hc, hcs⟩ := h
    rw [hasArrowFrom, ih hcs, Bool.or_false]
    by_cases hp : p.depth = 0
    · rw [hc hp, Bool.and_false, Bool.false_and]
    · rw [beq_false_of_ne hp, Bool.false_and, Bool.false_and]

lemma hasArrow_eq_false (h : Clean (· == '>') cs) : hasArrow cs = false :=
  hasArrowFrom_eq_false h

lemma meetsZero_eq_false (h : Along (fun d _ => d ≠ 0) p cs) : meetsZero p cs = false := by
  induction cs generalizing p with
  | nil => rfl
  | cons c cs ih => rw [meetsZero, ih h.2, beq_eq_false_iff_ne.2 h.1, Bool.or_false]

lemma enclosed?_eq_none {opening closing : Char} (h : opening ∉ cs) :
    enclosed? opening closing cs = none := by
  cases cs with
  | nil => rfl
  | cons c rest =>
    rw [enclosed?, if_neg]
    rintro ⟨rfl, -⟩
    exact h List.mem_cons_self

/-- A pair of brackets around a balanced text is a pair around all of it. -/
theorem enclosed?_wrap {opening closing : Char} (h : Balanced cs)
    (hopen : isOpening opening = true) :
    enclosed? opening closing (opening :: (cs ++ [closing])) = some cs := by
  have hin : (start.next opening).depth = 1 := next_depth_of_isOpening start hopen
  have hzero : meetsZero (start.next opening) cs = false :=
    meetsZero_eq_false ((h.along _).imp fun d _ hd => by omega)
  simp [enclosed?, hzero]

end StyleGuide.Bracket
