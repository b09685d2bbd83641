import Mathlib.Data.List.TakeWhile
import Mathlib.Tactic.Common
import StyleGuide.Component.Pattern
import StyleGuide.Proofs.Text.Cut

/-!
# The two parts of a pattern

A pattern is divided in front of the first of its segments that holds a wildcard.

## Main definitions

* `Pattern.literalSegments`, `Pattern.globSegments`: the segments in front of it, and the others.

## Main results

* `Pattern.split_eq`: the directory to search and the glob are written with these segments.
-/

namespace StyleGuide.Pattern

/-- Whether no wildcard stands in a segment. -/
def isLiteral (segment : List Char) : Bool := segment.all (!isWildcard ·)

/-- The segments of a pattern in front of the first one that holds a wildcard. -/
def literalSegments (pattern : List Char) : List (List Char) :=
  (cut (· == '/') pattern).takeWhile isLiteral

/-- The other segments of a pattern. -/
def globSegments (pattern : List Char) : List (List Char) :=
  (cut (· == '/') pattern).dropWhile isLiteral

lemma literalSegments_append_globSegments (pattern : List Char) :
    literalSegments pattern ++ globSegments pattern = cut (· == '/') pattern :=
  List.takeWhile_append_dropWhile

variable {front back pattern : List Char} {w : Char}

lemma literalSegments_eq_cut (h : globSegments pattern = []) :
    literalSegments pattern = cut (· == '/') pattern := by
  simpa [h] using literalSegments_append_globSegments pattern

lemma isLiteral_of_mem_cut (h : ∀ c ∈ pattern, isWildcard c = false) :
    ∀ s ∈ cut (· == '/') pattern, isLiteral s = true := by
  intro s hs
  rw [isLiteral, List.all_eq_true]
  intro c hc
  simp [h c (mem_of_mem_cut hs hc)]

/-- Without wildcards, all segments are literal. -/
lemma segments_of_literal (h : ∀ c ∈ pattern, isWildcard c = false) :
    literalSegments pattern = cut (· == '/') pattern ∧ globSegments pattern = [] :=
  ⟨List.takeWhile_eq_self_iff.2 (isLiteral_of_mem_cut h),
    List.dropWhile_eq_nil_iff.2 (isLiteral_of_mem_cut h)⟩

/-- A wildcard that no separator stands before is in the first segment. -/
lemma segments_of_wildcard (back : List Char) (hfront : '/' ∉ front) (hw : isWildcard w = true) :
    literalSegments (front ++ w :: back) = [] ∧
      globSegments (front ++ w :: back) = cut (· == '/') (front ++ w :: back) := by
  obtain ⟨rest, hcut⟩ := exists_cut_eq (· == '/') (front ++ w :: back)
  have hslash : w ≠ '/' := by
    rintro rfl
    revert hw
    decide
  have hliteral : isLiteral ((front ++ w :: back).takeWhile (!(· == '/') ·)) = false := by
    rw [isLiteral, List.all_eq_false]
    refine ⟨w, ?_, by simp [hw]⟩
    rw [List.takeWhile_append_of_pos (by grind), List.takeWhile_cons_of_pos (by simpa using hslash)]
    exact List.mem_append_right _ List.mem_cons_self
  simp [literalSegments, globSegments, hcut, hliteral]

/-- The segments of a text without wildcards stand in front of the others. -/
lemma segments_append (back : List Char) (hfront : ∀ c ∈ front, isWildcard c = false) :
    literalSegments (front ++ '/' :: back) = cut (· == '/') front ++ literalSegments back ∧
      globSegments (front ++ '/' :: back) = globSegments back := by
  have hall := isLiteral_of_mem_cut hfront
  unfold literalSegments globSegments
  rw [cut_append_cons _ _ (by simp)]
  exact ⟨List.takeWhile_append_of_pos hall, List.dropWhile_append_of_pos hall⟩

/-- The first of the other segments is not empty. -/
lemma joinWith_globSegments_ne_nil (h : globSegments pattern ≠ []) :
    joinWith '/' (globSegments pattern) ≠ [] := by
  have hhead : isLiteral ((globSegments pattern).head h) = false :=
    List.head_dropWhile_not isLiteral h
  obtain ⟨s, more, hmore⟩ := List.exists_cons_of_ne_nil h
  have hs : isLiteral s = false := by
    simpa only [hmore, List.head_cons] using hhead
  cases s with
  | nil => cases hs
  | cons c s =>
    rw [hmore, joinWith_cons_cons]
    exact List.cons_ne_nil _ _

/-! ## The division -/

/-- A pattern with a wildcard is divided behind the last separator in front of the wildcard. -/
lemma split_of_wildcard (hfront : ∀ c ∈ front, isWildcard c = false) (hw : isWildcard w = true) :
    split (front ++ w :: back) =
      let slash := front.length - (front.reverse.takeWhile (· ≠ '/')).length
      if slash = 0 then ([], some (front ++ w :: back))
      else ((front ++ w :: back).take (slash - 1), some ((front ++ w :: back).drop slash)) := by
  have hplain : (front ++ w :: back).takeWhile (!isWildcard ·) = front :=
    takeWhile_append_cons_eq (by simpa using hfront) (by simpa using hw) back
  unfold split
  simp only [hplain, List.length_append, List.length_cons]
  rw [if_neg (by omega)]

lemma exists_last_slash {xs : List Char} (h : '/' ∈ xs) :
    ∃ up last, xs = up ++ '/' :: last ∧ '/' ∉ last := by
  obtain ⟨last, up, hreverse, hlast⟩ := List.eq_append_cons_of_mem (List.mem_reverse.2 h)
  refine ⟨up.reverse, last.reverse, ?_, by simpa using hlast⟩
  rw [← List.reverse_reverse xs, hreverse]
  simp

/-- The directory to search is written with the literal segments, and the glob with the others. -/
theorem split_eq (pattern : List Char) :
    split pattern = (joinWith '/' (literalSegments pattern),
      if globSegments pattern = [] then none else some (joinWith '/' (globSegments pattern))) := by
  by_cases hall : ∀ c ∈ pattern, isWildcard c = false
  · obtain ⟨hliteral, hglob⟩ := segments_of_literal hall
    have hplain : pattern.takeWhile (!isWildcard ·) = pattern :=
      List.takeWhile_eq_self_iff.2 (by simpa using hall)
    rw [split, hplain, if_pos rfl, hliteral, hglob, joinWith_cut, if_pos rfl]
  · -- The first wildcard, and the last separator in front of it.
    obtain ⟨front, w, back, rfl, hfront, hw⟩ : ∃ front w back, pattern = front ++ w :: back ∧
        (∀ c ∈ front, isWildcard c = false) ∧ isWildcard w = true := by
      cases hrest : pattern.dropWhile (!isWildcard ·) with
      | nil => exact absurd (List.dropWhile_eq_nil_iff.1 hrest) (by simpa using hall)
      | cons w back =>
        refine ⟨pattern.takeWhile (!isWildcard ·), w, back, ?_, fun c hc => ?_, ?_⟩
        · rw [← hrest, List.takeWhile_append_dropWhile]
        · simpa using List.mem_takeWhile_imp hc
        · simpa [hrest] using
            List.head_dropWhile_not (l := pattern) (!isWildcard ·) (by simp [hrest])
    rw [split_of_wildcard hfront hw]
    by_cases hslash : '/' ∈ front
    · obtain ⟨up, last, rfl, hlast⟩ := exists_last_slash hslash
      have hup : ∀ c ∈ up, isWildcard c = false := fun c hc => hfront c (by simp [hc])
      have htext : up ++ '/' :: last ++ w :: back = up ++ '/' :: (last ++ w :: back) := by simp
      have hend : (up ++ '/' :: last).reverse.takeWhile (· ≠ '/') = last.reverse := by
        rw [List.reverse_append, List.reverse_cons, List.append_assoc]
        exact takeWhile_append_cons_eq (by grind) (by simp) up.reverse
      have hlength : (up ++ '/' :: last).length - last.reverse.length = up.length + 1 := by
        rw [List.length_append, List.length_cons, List.length_reverse]
        omega
      obtain ⟨hliteral, hglob⟩ := segments_append (last ++ w :: back) hup
      obtain ⟨hliteral', hglob'⟩ := segments_of_wildcard back hlast hw
      rw [hend, hlength, htext, hliteral, hglob, hliteral', hglob', List.append_nil, joinWith_cut,
        joinWith_cut, if_neg (cut_ne_nil _ _), if_neg (Nat.succ_ne_zero _)]
      simp
    · obtain ⟨hliteral, hglob⟩ := segments_of_wildcard back hslash hw
      have hstart : front.reverse.takeWhile (· ≠ '/') = front.reverse :=
        List.takeWhile_eq_self_iff.2 (by grind)
      rw [hstart, hliteral, hglob, List.length_reverse, Nat.sub_self, if_neg (cut_ne_nil _ _),
        joinWith_cut]
      rfl

end StyleGuide.Pattern
