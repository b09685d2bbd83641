import Mathlib.Data.List.Basic
import Mathlib.Tactic.Lemma
import StyleGuide.Text.Cut

/-!
# What a cut gives

A separator cuts what stands before it from what stands behind it, and nothing is in a piece that is
not in the whole sequence. Likewise the elements of a kind at the front of a sequence end at the
first one of another kind.
-/

namespace StyleGuide

variable {α : Type} {sep : α → Bool}

/-- A separator cuts a sequence into what stands before and behind it. -/
lemma cut_append_cons (xs ys : List α) {x : α} (hx : sep x = true) :
    cut sep (xs ++ x :: ys) = cut sep xs ++ cut sep ys := by
  induction xs with
  | nil => simp [cut, hx]
  | cons y xs ih =>
    rw [List.cons_append, cut, cut, ih]
    obtain ⟨piece, pieces, h⟩ := List.exists_cons_of_ne_nil (cut_ne_nil sep xs)
    split <;> simp [h]

/-- Without a separator there is one piece. -/
lemma cut_eq_singleton {xs : List α} (h : ∀ x ∈ xs, sep x = false) : cut sep xs = [xs] := by
  induction xs with
  | nil => rfl
  | cons x xs ih =>
    rw [cut, ih fun y hy => h y (List.mem_cons_of_mem _ hy)]
    simp [h x List.mem_cons_self]

/-- What holds no separator goes to the first piece of what stands behind it. -/
lemma exists_cut_append {xs : List α} (h : ∀ x ∈ xs, sep x = false) (ys : List α) :
    ∃ piece pieces, cut sep ys = piece :: pieces ∧
      cut sep (xs ++ ys) = (xs ++ piece) :: pieces := by
  obtain ⟨piece, pieces, hys⟩ := List.exists_cons_of_ne_nil (cut_ne_nil sep ys)
  refine ⟨piece, pieces, hys, ?_⟩
  induction xs with
  | nil => exact hys
  | cons x xs ih =>
    rw [List.cons_append, cut, ih fun y hy => h y (List.mem_cons_of_mem _ hy)]
    simp [h x List.mem_cons_self]

/-- The last pieces can be joined first. -/
lemma joinWith_append_joinWith {x : α} {ps qs : List (List α)} (hqs : qs ≠ []) :
    joinWith x (ps ++ [joinWith x qs]) = joinWith x (ps ++ qs) := by
  induction ps with
  | nil => rfl
  | cons p ps ih =>
    obtain ⟨q, more, hmore⟩ := List.exists_cons_of_ne_nil (show ps ++ qs ≠ [] by simp [hqs])
    obtain ⟨q', more', hmore'⟩ :=
      List.exists_cons_of_ne_nil (show ps ++ [joinWith x qs] ≠ [] by simp)
    rw [List.cons_append, List.cons_append, hmore, hmore', joinWith, joinWith, ← hmore, ← hmore',
      ih]

/-- The last piece stands behind the others. -/
lemma joinWith_concat (x : α) {ps : List (List α)} (hps : ps ≠ []) (q : List α) :
    joinWith x (ps ++ [q]) = joinWith x ps ++ x :: q := by
  induction ps with
  | nil => exact absurd rfl hps
  | cons p ps ih =>
    cases ps with
    | nil => rfl
    | cons next ps =>
      rw [List.cons_append, List.cons_append, joinWith, ← List.cons_append, ih (by simp), joinWith]
      simp

/-- What stands behind the last piece stands behind all of them. -/
lemma joinWith_concat_append (x : α) (ps : List (List α)) (q r : List α) :
    joinWith x (ps ++ [q ++ r]) = joinWith x (ps ++ [q]) ++ r := by
  by_cases hps : ps = []
  · subst hps
    rfl
  · rw [joinWith_concat x hps, joinWith_concat x hps, List.append_assoc, List.cons_append]

/-- A joined sequence ends as its last piece does. -/
lemma joinWith_concat_ne_nil (x : α) (ps : List (List α)) {q : List α} (hq : q ≠ []) :
    joinWith x (ps ++ [q]) ≠ [] ∧ (joinWith x (ps ++ [q])).getLast? = q.getLast? := by
  by_cases hps : ps = []
  · subst hps
    exact ⟨hq, rfl⟩
  · rw [joinWith_concat x hps]
    refine ⟨by simp, ?_⟩
    rw [List.getLast?_append_of_ne_nil _ (by simp), List.getLast?_cons_of_ne_nil hq]

/-- Pieces without the separator are what their join is cut into. -/
lemma cut_joinWith [BEq α] [LawfulBEq α] {x : α} {pieces : List (List α)} (hne : pieces ≠ [])
    (h : ∀ piece ∈ pieces, x ∉ piece) : cut (· == x) (joinWith x pieces) = pieces := by
  have hsingle : ∀ piece ∈ pieces, cut (· == x) piece = [piece] := by
    intro piece hpiece
    refine cut_eq_singleton fun y hy => beq_false_of_ne ?_
    exact ne_of_mem_of_not_mem hy (h piece hpiece)
  induction pieces with
  | nil => exact absurd rfl hne
  | cons piece pieces ih =>
    simp only [List.mem_cons, forall_eq_or_imp] at h hsingle
    cases pieces with
    | nil => exact hsingle.1
    | cons next pieces =>
      rw [joinWith, cut_append_cons _ _ (by simp), hsingle.1, ih (by simp) h.2 hsingle.2]
      rfl

/-- The first piece ends in front of the first separator. -/
lemma exists_cut_eq (sep : α → Bool) (xs : List α) :
    ∃ rest, cut sep xs = xs.takeWhile (!sep ·) :: rest := by
  induction xs with
  | nil => exact ⟨[], rfl⟩
  | cons x xs ih =>
    obtain ⟨rest, hrest⟩ := ih
    cases hx : sep x with
    | true => exact ⟨cut sep xs, by simp [cut, hx]⟩
    | false => exact ⟨rest, by simp [cut, hx, hrest]⟩

lemma mem_of_mem_cut {xs piece : List α} (h : piece ∈ cut sep xs) {x : α} (hx : x ∈ piece) :
    x ∈ xs := by
  induction xs generalizing piece with
  | nil => simp_all [cut]
  | cons y ys ih =>
    rw [cut] at h
    split at h
    · rcases List.mem_cons.1 h with rfl | h
      · cases hx
      · exact List.mem_cons_of_mem _ (ih h hx)
    · obtain ⟨head, tail, hc⟩ := List.exists_cons_of_ne_nil (cut_ne_nil sep ys)
      rw [hc] at h ih
      simp only [List.mem_cons] at h ⊢
      grind

/-! ## The front of a sequence -/

section Front

variable {p : α → Bool} {xs : List α} {x : α}

/-- An element that is left behind ends what is taken. -/
lemma takeWhile_append_cons (hx : p x = false) (xs ys : List α) :
    (xs ++ x :: ys).takeWhile p = xs.takeWhile p := by
  induction xs with
  | nil => simp [hx]
  | cons y xs ih => simp only [List.cons_append, List.takeWhile_cons, ih]

lemma takeWhile_append_cons_eq (h : ∀ y ∈ xs, p y = true) (hx : p x = false) (ys : List α) :
    (xs ++ x :: ys).takeWhile p = xs := by
  rw [List.takeWhile_append_of_pos h, List.takeWhile_cons_of_neg (by simp [hx]), List.append_nil]

lemma dropWhile_append_cons_eq (h : ∀ y ∈ xs, p y = true) (hx : p x = false) (ys : List α) :
    (xs ++ x :: ys).dropWhile p = x :: ys := by
  rw [List.dropWhile_append_of_pos h, List.dropWhile_cons_of_neg (by simp [hx])]

lemma dropWhile_eq_self (h : ∀ x ∈ xs, p x = false) : xs.dropWhile p = xs := by
  cases xs with
  | nil => rfl
  | cons x xs => exact List.dropWhile_cons_of_neg (by simp [h])

/-- A run of one element ends in front of another one. -/
lemma takeWhile_replicate_append [BEq α] [LawfulBEq α] {n : Nat} (h : xs.head? ≠ some x) :
    (List.replicate n x ++ xs).takeWhile (· == x) = List.replicate n x := by
  rw [List.takeWhile_append_of_pos (by simp)]
  cases xs with
  | nil => simp
  | cons y xs => simp_all

lemma dropWhile_replicate_append [BEq α] [LawfulBEq α] {n : Nat} (h : xs.head? ≠ some x) :
    (List.replicate n x ++ xs).dropWhile (· == x) = xs := by
  rw [List.dropWhile_append_of_pos (by simp)]
  cases xs with
  | nil => rfl
  | cons y xs => simp_all

end Front

end StyleGuide
