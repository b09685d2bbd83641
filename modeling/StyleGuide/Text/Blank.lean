/-!
# Blank characters

The characters with the Unicode property White_Space, and what is cut at them: the trimmed text
and the words of a line. Cutting works on lists of characters; the forms on `String` wrap it.
-/

namespace StyleGuide

/-- Whether a character has the Unicode property White_Space. -/
def isBlank (c : Char) : Bool :=
  let n := c.toNat
  (0x09 ≤ n && n ≤ 0x0D) || n == 0x20 || n == 0x85 || n == 0xA0 || n == 0x1680 ||
    (0x2000 ≤ n && n ≤ 0x200A) || n == 0x2028 || n == 0x2029 || n == 0x202F || n == 0x205F ||
    n == 0x3000

/-- Drop blank characters from the front. -/
def trimLeft (cs : List Char) : List Char := cs.dropWhile isBlank

/-- Drop blank characters from the end. -/
def trimRight (cs : List Char) : List Char := (cs.reverse.dropWhile isBlank).reverse

/-- Drop blank characters from both ends. -/
def trim (cs : List Char) : List Char := trimRight (trimLeft cs)

theorem trimLeft_length (cs : List Char) : (trimLeft cs).length ≤ cs.length :=
  (List.dropWhile_sublist _).length_le

theorem trimRight_length (cs : List Char) : (trimRight cs).length ≤ cs.length := by
  unfold trimRight
  rw [List.length_reverse]
  exact Nat.le_trans (List.dropWhile_sublist _).length_le (Nat.le_of_eq List.length_reverse)

theorem trim_length (cs : List Char) : (trim cs).length ≤ cs.length :=
  Nat.le_trans (trimRight_length _) (trimLeft_length _)

/-- Whether nothing but blank characters occurs. -/
def allBlank (cs : List Char) : Bool := cs.all isBlank

/-- The maximal runs of characters that are not blank. -/
def words (cs : List Char) : List (List Char) :=
  match _h : trimLeft cs with
  | [] => []
  | c :: rest =>
    (c :: rest.takeWhile (!isBlank ·)) :: words (rest.dropWhile (!isBlank ·))
termination_by cs.length
decreasing_by
  have h₁ := trimLeft_length cs
  have h₂ : (rest.dropWhile (!isBlank ·)).length ≤ rest.length :=
    (List.dropWhile_sublist _).length_le
  rw [_h] at h₁
  simp only [List.length_cons] at h₁
  omega

end StyleGuide
