import StyleGuide.Text.Cut

/-!
# Brackets in type texts

Round, square, curly and angle brackets nest; the `>` of an arrow closes nothing. All of it goes by
the depth before each character, which may fall below zero in a text that is not balanced.

## Main definitions

* `Bracket.depthAfter`: the depth at the end of a text.
* `Bracket.split`: the pieces between separators at depth zero.
* `Bracket.hasArrow`: whether there is an arrow at depth zero.
* `Bracket.enclosed?`: what is inside a pair of brackets around the whole text.
-/

namespace StyleGuide.Bracket

/-- A place in a text: the depth there, and the character before it. -/
structure Place where
  depth : Int
  before : Option Char
deriving DecidableEq

/-- The start of a text. -/
def start : Place := ⟨0, none⟩

/-- Whether a character opens a bracket. -/
def isOpening (c : Char) : Bool := c = '(' || c = '[' || c = '\x7b' || c = '<'

/-- Whether a character closes a bracket; an arrow does not. -/
def isClosing (before : Option Char) (c : Char) : Bool :=
  c = ')' || c = ']' || c = '\x7d' || (c = '>' && before != some '=')

/-- The place behind a character. -/
def Place.next (p : Place) (c : Char) : Place :=
  ⟨if isOpening c then p.depth + 1 else if isClosing p.before c then p.depth - 1 else p.depth,
    some c⟩

/-- The depth at the end of a text. -/
def depthAfter (cs : List Char) : Int := (cs.foldl Place.next start).depth

/-- The pieces between separators at depth zero, from a place on. -/
def splitFrom (sep : Char → Bool) (p : Place) : List Char → List (List Char)
  | [] => [[]]
  | c :: rest =>
    if p.depth = 0 ∧ sep c = true then [] :: splitFrom sep (p.next c) rest
    else
      match splitFrom sep (p.next c) rest with
      | [] => [[c]]
      | piece :: pieces => (c :: piece) :: pieces

/-- The pieces between separators at depth zero. -/
def split (sep : Char → Bool) (cs : List Char) : List (List Char) := splitFrom sep start cs

/-- Whether there is an arrow at depth zero, from a place on. -/
def hasArrowFrom (p : Place) : List Char → Bool
  | [] => false
  | c :: rest =>
    (p.depth == 0 && c == '>' && p.before == some '=') || hasArrowFrom (p.next c) rest

/-- Whether there is an arrow at depth zero. -/
def hasArrow (cs : List Char) : Bool := hasArrowFrom start cs

/-- Whether depth zero is met at a character, from a place on. -/
def meetsZero (p : Place) : List Char → Bool
  | [] => false
  | c :: rest => p.depth == 0 || meetsZero (p.next c) rest

/-- What is between the brackets `opening` and `closing`, if the pair is around the whole text. -/
def enclosed? (opening closing : Char) : List Char → Option (List Char)
  | [] => none
  | c :: rest =>
    if c = opening ∧ rest.getLast? = some closing then
      if meetsZero (start.next c) rest.dropLast then none else some rest.dropLast
    else none

/-! ## Lengths -/

theorem splitFrom_ne_nil (sep : Char → Bool) (p : Place) (cs : List Char) :
    splitFrom sep p cs ≠ [] := by
  cases cs with
  | nil => simp [splitFrom]
  | cons c cs =>
    rw [splitFrom]
    split
    · simp
    · split <;> simp

/-- The pieces and the separators between them are as long as the text. -/
theorem weight_splitFrom (sep : Char → Bool) (p : Place) (cs : List Char) :
    weight (splitFrom sep p cs) = cs.length + 1 := by
  induction cs generalizing p with
  | nil => simp [splitFrom]
  | cons c cs ih =>
    rw [splitFrom]
    have h := ih (p.next c)
    split
    · simp only [weight_cons, List.length_nil, List.length_cons, h]
      omega
    · obtain ⟨piece, pieces, hs⟩ := List.exists_cons_of_ne_nil (splitFrom_ne_nil sep (p.next c) cs)
      rw [hs] at h ⊢
      simp only [weight_cons, List.length_cons] at h ⊢
      omega

theorem weight_split (sep : Char → Bool) (cs : List Char) :
    weight (split sep cs) = cs.length + 1 := weight_splitFrom sep start cs

theorem enclosed?_length {opening closing : Char} {cs inner : List Char}
    (h : enclosed? opening closing cs = some inner) : inner.length < cs.length := by
  cases cs with
  | nil => simp [enclosed?] at h
  | cons c rest =>
    rw [enclosed?] at h
    split at h
    · split at h
      · cases h
      · cases h
        simp only [List.length_dropLast, List.length_cons]
        omega
    · cases h

end StyleGuide.Bracket
