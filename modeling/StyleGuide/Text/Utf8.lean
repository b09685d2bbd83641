/-!
# Bytes and characters

Names, paths and files are sequences of bytes; documents are sequences of characters. This module
converts between the two. `encode` is the UTF-8 form of a text, `decode?` reads a whole text back
and refuses malformed bytes, and `decodeLossy` replaces each malformed piece by U+FFFD, where a
piece is the longest start of a well-formed character that stands there, or else one byte.
-/

namespace StyleGuide

/-- A byte sequence: the content of a file, or the name of one. -/
abbrev Bytes := List UInt8

namespace Utf8

/-- The UTF-8 form of a list of characters. -/
def encodeChars (cs : List Char) : Bytes :=
  cs.flatMap String.utf8EncodeChar

/-- The UTF-8 form of a text. -/
def encode (s : String) : Bytes :=
  encodeChars s.toList

/-- Read `need` continuation bytes onto the value `acc`. The first of them lies between `lo` and
`hi`, the others between 0x80 and 0xBF. The character is absent when one is missing; the bytes that
did fit are consumed all the same. -/
def follow : (need lo hi acc : Nat) → Bytes → Option Char × Bytes
  | 0, _, _, acc, rest => (some (Char.ofNat acc), rest)
  | _ + 1, _, _, _, [] => (none, [])
  | n + 1, lo, hi, acc, b :: rest =>
    if lo ≤ b.toNat ∧ b.toNat ≤ hi then
      follow n 0x80 0xBF (acc * 64 + (b.toNat - 0x80)) rest
    else
      (none, b :: rest)

/-- The character that starts with the byte `b`, if the bytes after it complete one, and what
stands behind it. -/
def next (b : UInt8) (rest : Bytes) : Option Char × Bytes :=
  let n := b.toNat
  if n < 0x80 then (some (Char.ofNat n), rest)
  else if 0xC2 ≤ n ∧ n ≤ 0xDF then follow 1 0x80 0xBF (n - 0xC0) rest
  else if n = 0xE0 then follow 2 0xA0 0xBF 0 rest
  else if n = 0xED then follow 2 0x80 0x9F 13 rest
  else if 0xE1 ≤ n ∧ n ≤ 0xEF then follow 2 0x80 0xBF (n - 0xE0) rest
  else if n = 0xF0 then follow 3 0x90 0xBF 0 rest
  else if 0xF1 ≤ n ∧ n ≤ 0xF3 then follow 3 0x80 0xBF (n - 0xF0) rest
  else if n = 0xF4 then follow 3 0x80 0x8F 4 rest
  else (none, rest)

theorem follow_length (need lo hi acc : Nat) (rest : Bytes) :
    (follow need lo hi acc rest).2.length ≤ rest.length := by
  induction need generalizing lo hi acc rest with
  | zero => simp [follow]
  | succ n ih =>
    cases rest with
    | nil => simp [follow]
    | cons b rest =>
      rw [follow]
      split
      · exact Nat.le_succ_of_le (ih _ _ _ _)
      · simp

theorem next_length (b : UInt8) (rest : Bytes) : (next b rest).2.length ≤ rest.length := by
  simp only [next]
  repeat' split
  all_goals first | exact Nat.le_refl _ | exact follow_length _ _ _ _ _

/-- The characters of a byte sequence, or `none` where it is malformed. -/
def scan : Bytes → List (Option Char)
  | [] => []
  | b :: rest => (next b rest).1 :: scan (next b rest).2
termination_by bs => bs.length
decreasing_by exact Nat.lt_succ_of_le (next_length b rest)

/-- The text that the bytes are the UTF-8 form of. -/
def decode? (bs : Bytes) : Option String :=
  ((scan bs).mapM id).map String.ofList

/-- The text of the bytes, each malformed piece replaced by U+FFFD. -/
def decodeLossy (bs : Bytes) : String :=
  String.ofList ((scan bs).map (·.getD '\uFFFD'))

end Utf8

end StyleGuide
