/-!
# Cutting a sequence at separators

`cut sep xs` lists the pieces of `xs` between the elements that satisfy `sep`. There is always one
piece more than there are separators, so the empty sequence has one empty piece, and joining the
pieces of a single separator gives the sequence back (`joinWith_cut`).
-/

namespace StyleGuide

variable {α : Type}

/-- The pieces of a sequence between the elements that satisfy `sep`. -/
def cut (sep : α → Bool) : List α → List (List α)
  | [] => [[]]
  | x :: xs =>
    if sep x then [] :: cut sep xs
    else
      match cut sep xs with
      | [] => [[x]]
      | piece :: pieces => (x :: piece) :: pieces

/-- Put the element `x` between consecutive pieces. -/
def joinWith (x : α) : List (List α) → List α
  | [] => []
  | [piece] => piece
  | piece :: next :: pieces => piece ++ x :: joinWith x (next :: pieces)

theorem cut_ne_nil (sep : α → Bool) (xs : List α) : cut sep xs ≠ [] := by
  cases xs with
  | nil => simp [cut]
  | cons x xs =>
    rw [cut]
    split
    · simp
    · split <;> simp

theorem joinWith_cons_cons (x y : α) (piece : List α) (pieces : List (List α)) :
    joinWith x ((y :: piece) :: pieces) = y :: joinWith x (piece :: pieces) := by
  cases pieces <;> rfl

/-- Joining the pieces with the separator they were cut at gives the sequence back. -/
theorem joinWith_cut [BEq α] [LawfulBEq α] (x : α) (xs : List α) :
    joinWith x (cut (· == x) xs) = xs := by
  induction xs with
  | nil => rfl
  | cons y ys ih =>
    obtain ⟨piece, pieces, h⟩ := List.exists_cons_of_ne_nil (cut_ne_nil (· == x) ys)
    by_cases hy : y = x
    · subst hy
      rw [cut, if_pos (by simp), h, joinWith, ← h, ih, List.nil_append]
    · rw [cut, if_neg (by simpa using hy), h]
      simp only
      rw [joinWith_cons_cons, ← h, ih]

/-- No separator is left inside a piece. -/
theorem not_mem_of_mem_cut (sep : α → Bool) {xs piece : List α} (h : piece ∈ cut sep xs)
    {x : α} (hx : x ∈ piece) : sep x = false := by
  induction xs generalizing piece with
  | nil => simp_all [cut]
  | cons y ys ih =>
    rw [cut] at h
    split at h
    · rcases List.mem_cons.1 h with rfl | h
      · simp at hx
      · exact ih h hx
    next hy =>
      obtain ⟨head, tail, hc⟩ := List.exists_cons_of_ne_nil (cut_ne_nil sep ys)
      rw [hc] at h ih
      simp only at h
      rcases List.mem_cons.1 h with rfl | h
      · rcases List.mem_cons.1 hx with rfl | hx
        · simpa using hy
        · exact ih List.mem_cons_self hx
      · exact ih (List.mem_cons_of_mem _ h) hx

/-! ## Lengths -/

/-- The room that pieces take when each has a separator behind it. -/
def weight : List (List α) → Nat
  | [] => 0
  | s :: pieces => s.length + 1 + weight pieces

@[simp] theorem weight_nil : weight ([] : List (List α)) = 0 := rfl

@[simp] theorem weight_cons (s : List α) (pieces : List (List α)) :
    weight (s :: pieces) = s.length + 1 + weight pieces := rfl

@[simp] theorem weight_append (ps qs : List (List α)) :
    weight (ps ++ qs) = weight ps + weight qs := by
  induction ps with
  | nil => simp
  | cons s ps ih =>
    rw [List.cons_append, weight_cons, weight_cons, ih]
    omega

theorem length_le_weight (pieces : List (List α)) : pieces.length ≤ weight pieces := by
  induction pieces with
  | nil => simp
  | cons s pieces ih =>
    simp only [List.length_cons, weight_cons]
    omega

/-- A piece, and a separator for each piece, fit into the weight. -/
theorem length_add_length_le_weight {s : List α} {pieces : List (List α)} (h : s ∈ pieces) :
    s.length + pieces.length ≤ weight pieces := by
  induction pieces with
  | nil => simp at h
  | cons t pieces ih =>
    simp only [List.length_cons, weight_cons]
    rcases List.mem_cons.1 h with rfl | h
    · have := length_le_weight pieces
      omega
    · have := ih h
      omega

theorem weight_filter_le (p : List α → Bool) (pieces : List (List α)) :
    weight (pieces.filter p) ≤ weight pieces := by
  induction pieces with
  | nil => simp
  | cons s pieces ih =>
    rw [List.filter_cons]
    split
    · simp only [weight_cons]
      omega
    · simp only [weight_cons]
      omega

theorem weight_map_le {f : List α → List α} (hf : ∀ s, (f s).length ≤ s.length)
    (pieces : List (List α)) : weight (pieces.map f) ≤ weight pieces := by
  induction pieces with
  | nil => simp
  | cons s pieces ih =>
    simp only [List.map_cons, weight_cons]
    have := hf s
    omega

/-- The pieces and the separators between them are as long as the sequence. -/
theorem weight_cut (sep : α → Bool) (xs : List α) : weight (cut sep xs) = xs.length + 1 := by
  induction xs with
  | nil => simp [cut]
  | cons x xs ih =>
    rw [cut]
    split
    · simp only [weight_cons, List.length_nil, List.length_cons, ih]
      omega
    · obtain ⟨piece, pieces, h⟩ := List.exists_cons_of_ne_nil (cut_ne_nil sep xs)
      rw [h] at ih ⊢
      simp only [weight_cons, List.length_cons] at ih ⊢
      omega

end StyleGuide
