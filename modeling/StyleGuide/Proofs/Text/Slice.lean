import Mathlib.Tactic.Lemma
import StyleGuide.Text.Utf8

/-!
# Cutting a text between bytes

A place in a text can be given by the bytes in front of it. Not every number of bytes is a place: it
may lie inside of a character, or behind the end.

## Main definitions

* `byteSize`: how many bytes a text takes.
* `splitAtByte?`: the text before a number of bytes, and behind it.
* `slice?`: the text between two numbers of bytes.

## Main results

* `splitAtByte?_eq_some_iff`: a text can be cut exactly between two of its characters, and at its
  ends.
* `slice?_append`: the middle of a text is the slice between the bytes of what stands around it.
-/

namespace StyleGuide

open scoped List

/-- How many bytes a text takes. -/
def byteSize (cs : List Char) : Nat := (Utf8.encodeChars cs).length

/-- The text before a number of bytes and the text behind it, unless a character lies on both
sides. -/
def splitAtByte? : Nat → List Char → Option (List Char × List Char)
  | 0, cs => some ([], cs)
  | _ + 1, [] => none
  | n + 1, c :: cs =>
    if n + 1 < c.utf8Size then none
    else (splitAtByte? (n + 1 - c.utf8Size) cs).map fun (front, rest) => (c :: front, rest)

/-- The text between two numbers of bytes. -/
def slice? (first last : Nat) (cs : List Char) : Option (List Char) :=
  if last < first then none
  else do
    let (_, rest) ← splitAtByte? first cs
    let (middle, _) ← splitAtByte? (last - first) rest
    pure middle

@[simp] lemma byteSize_nil : byteSize [] = 0 := rfl

@[simp] lemma byteSize_append (cs ds : List Char) :
    byteSize (cs ++ ds) = byteSize cs + byteSize ds := by
  simp [byteSize, Utf8.encodeChars]

@[simp] lemma byteSize_cons (c : Char) (cs : List Char) :
    byteSize (c :: cs) = c.utf8Size + byteSize cs := by
  simp [byteSize, Utf8.encodeChars]

lemma byteSize_pos {cs : List Char} (h : cs ≠ []) : 0 < byteSize cs := by
  obtain ⟨c, cs, rfl⟩ := List.exists_cons_of_ne_nil h
  have := c.utf8Size_pos
  rw [byteSize_cons]
  omega

/-- Each character that is left out of a text takes a byte at least. -/
lemma byteSize_add_length_le {xs ys : List Char} (h : xs <+ ys) :
    byteSize xs + ys.length ≤ byteSize ys + xs.length := by
  induction h with
  | slnil => exact Nat.le_refl _
  | cons c h ih =>
    have := c.utf8Size_pos
    rw [byteSize_cons, List.length_cons]
    omega
  | cons_cons c h ih =>
    rw [byteSize_cons, byteSize_cons, List.length_cons, List.length_cons]
    omega

/-- A text can be cut exactly between two of its characters, and at its ends. -/
theorem splitAtByte?_eq_some_iff {n : Nat} {cs front rest : List Char} :
    splitAtByte? n cs = some (front, rest) ↔ cs = front ++ rest ∧ byteSize front = n := by
  fun_induction splitAtByte? n cs generalizing front with
  | case1 cs =>
    constructor
    · rintro ⟨⟩
      exact ⟨rfl, rfl⟩
    · rintro ⟨rfl, hsize⟩
      cases front with
      | nil => rfl
      | cons c front =>
        have := c.utf8Size_pos
        rw [byteSize_cons] at hsize
        omega
  | case2 n =>
    constructor
    · rintro ⟨⟩
    · rintro ⟨hnil, hsize⟩
      rw [(List.append_eq_nil_iff.1 hnil.symm).1] at hsize
      cases hsize
  | case3 n c cs hlt =>
    constructor
    · rintro ⟨⟩
    · rintro ⟨heq, hsize⟩
      cases front with
      | nil => cases hsize
      | cons d front =>
        cases heq
        rw [byteSize_cons] at hsize
        omega
  | case4 n c cs hlt ih =>
    rw [Option.map_eq_some_iff]
    constructor
    · rintro ⟨⟨front', rest'⟩, h, heq⟩
      cases heq
      obtain ⟨rfl, hsize⟩ := ih.1 h
      refine ⟨rfl, ?_⟩
      rw [byteSize_cons]
      omega
    · rintro ⟨heq, hsize⟩
      cases front with
      | nil => cases hsize
      | cons d front =>
        cases heq
        rw [byteSize_cons] at hsize
        exact ⟨(front, rest), ih.2 ⟨rfl, by omega⟩, rfl⟩

/-- The middle of a text is the slice between the bytes of what stands around it. -/
theorem slice?_append (front middle rest : List Char) :
    slice? (byteSize front) (byteSize front + byteSize middle) (front ++ middle ++ rest) =
      some middle := by
  have hfront : splitAtByte? (byteSize front) (front ++ middle ++ rest) =
      some (front, middle ++ rest) := splitAtByte?_eq_some_iff.2 ⟨by simp, rfl⟩
  have hmiddle : splitAtByte? (byteSize middle) (middle ++ rest) = some (middle, rest) :=
    splitAtByte?_eq_some_iff.2 ⟨rfl, rfl⟩
  rw [slice?, if_neg (by omega), hfront]
  simp [hmiddle]

end StyleGuide
