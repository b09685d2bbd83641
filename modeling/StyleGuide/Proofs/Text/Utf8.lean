import Mathlib.Data.List.Basic
import Mathlib.Tactic.Lemma
import StyleGuide.Text.Utf8

/-!
# Reading back what was encoded

The bytes of a character are read as that character, whatever stands behind them. So a text is the
only one with its bytes, and reading these gives it back. No other bytes are read as that character:
the first byte of a form fixes how many follow, and the bounds on the second one keep out what has
a shorter form.

## Main results

* `Utf8.next_utf8EncodeChar`: one character.
* `Utf8.not_mem_encodeChars`: the bytes of ASCII characters stand for nothing else.
* `Utf8.cons_eq_of_next`: the bytes read as a character are its own.
* `Utf8.scan_encodeChars`, `Utf8.decode?_eq_some_iff`, `Utf8.decodeLossy_encode`: a whole text.
-/

namespace StyleGuide.Utf8

/-! ## Continuation bytes -/

/-- A continuation byte adds six bits. -/
lemma follow_continuation {need lo hi acc n : Nat} {rest : Bytes} (hn : n < 64)
    (hlo : lo ≤ n + 0x80) (hhi : n + 0x80 ≤ hi) :
    follow (need + 1) lo hi acc (UInt8.ofNat (n + 0x80) :: rest) =
      follow need 0x80 0xBF (acc * 64 + n) rest := by
  have hbyte : (UInt8.ofNat (n + 0x80)).toNat = n + 0x80 := by
    rw [UInt8.toNat_ofNat']
    omega
  rw [follow, hbyte, if_pos ⟨hlo, hhi⟩, Nat.add_sub_cancel]

lemma follow_two {acc m n lo hi : Nat} {rest : Bytes} (hm : m < 64) (hn : n < 64)
    (hlo : lo ≤ m + 0x80) (hhi : m + 0x80 ≤ hi) :
    follow 2 lo hi acc (UInt8.ofNat (m + 0x80) :: UInt8.ofNat (n + 0x80) :: rest) =
      (some (Char.ofNat ((acc * 64 + m) * 64 + n)), rest) := by
  rw [follow_continuation hm hlo hhi, follow_continuation hn (by omega) (by omega), follow]

lemma follow_three {acc l m n lo hi : Nat} {rest : Bytes} (hl : l < 64) (hm : m < 64) (hn : n < 64)
    (hlo : lo ≤ l + 0x80) (hhi : l + 0x80 ≤ hi) :
    follow 3 lo hi acc
        (UInt8.ofNat (l + 0x80) :: UInt8.ofNat (m + 0x80) :: UInt8.ofNat (n + 0x80) :: rest) =
      (some (Char.ofNat (((acc * 64 + l) * 64 + m) * 64 + n)), rest) := by
  rw [follow_continuation hl hlo hhi, follow_two hm hn (by omega) (by omega)]

/-! ## One character -/

lemma next_one {v : Nat} {rest : Bytes} (hv : v ≤ 0x7F) :
    next (UInt8.ofNat v) rest = (some (Char.ofNat v), rest) := by
  have hbyte : (UInt8.ofNat v).toNat = v := by
    rw [UInt8.toNat_ofNat']
    omega
  simp only [next, hbyte]
  rw [if_pos (by omega)]

lemma next_two {v : Nat} {rest : Bytes} (hlow : 0x7F < v) (hv : v ≤ 0x7FF) :
    next (UInt8.ofNat (v / 64 % 0x20 + 0xC0)) (UInt8.ofNat (v % 0x40 + 0x80) :: rest) =
      (some (Char.ofNat v), rest) := by
  have hbyte : (UInt8.ofNat (v / 64 % 0x20 + 0xC0)).toNat = v / 64 + 0xC0 := by
    rw [UInt8.toNat_ofNat']
    omega
  simp only [next, hbyte]
  rw [if_neg (by omega), if_pos (by omega), follow_continuation (by omega) (by omega) (by omega),
    follow]
  congr 3
  omega

lemma next_three {v : Nat} {rest : Bytes} (hlow : 0x7FF < v) (hv : v ≤ 0xFFFF)
    (hvalid : v < 0xD800 ∨ 0xDFFF < v) :
    next (UInt8.ofNat (v / 4096 % 0x10 + 0xE0))
        (UInt8.ofNat (v / 64 % 0x40 + 0x80) :: UInt8.ofNat (v % 0x40 + 0x80) :: rest) =
      (some (Char.ofNat v), rest) := by
  have hbyte : (UInt8.ofNat (v / 4096 % 0x10 + 0xE0)).toNat = v / 4096 + 0xE0 := by
    rw [UInt8.toNat_ofNat']
    omega
  have hvalue : (v / 4096 * 64 + v / 64 % 64) * 64 + v % 64 = v := by omega
  simp only [next, hbyte]
  rw [if_neg (by omega), if_neg (by omega)]
  -- Behind the first byte 0xE0 too small values are refused, and behind 0xED surrogates.
  by_cases hfirst : v / 4096 = 0
  · rw [if_pos (by omega), follow_two (by omega) (by omega) (by omega) (by omega), ← hfirst, hvalue]
  · rw [if_neg (by omega)]
    by_cases hlast : v / 4096 = 13
    · rw [if_pos (by omega), follow_two (by omega) (by omega) (by omega) (by omega), ← hlast,
        hvalue]
    · rw [if_neg (by omega), if_pos (by omega), Nat.add_sub_cancel,
        follow_two (by omega) (by omega) (by omega) (by omega), hvalue]

lemma next_four {v : Nat} {rest : Bytes} (hlow : 0xFFFF < v) (hv : v < 0x110000) :
    next (UInt8.ofNat (v / 262144 % 0x08 + 0xF0))
        (UInt8.ofNat (v / 4096 % 0x40 + 0x80) :: UInt8.ofNat (v / 64 % 0x40 + 0x80) ::
          UInt8.ofNat (v % 0x40 + 0x80) :: rest) =
      (some (Char.ofNat v), rest) := by
  have hbyte : (UInt8.ofNat (v / 262144 % 0x08 + 0xF0)).toNat = v / 262144 + 0xF0 := by
    rw [UInt8.toNat_ofNat']
    omega
  have hvalue : ((v / 262144 * 64 + v / 4096 % 64) * 64 + v / 64 % 64) * 64 + v % 64 = v := by omega
  simp only [next, hbyte]
  rw [if_neg (by omega), if_neg (by omega), if_neg (by omega), if_neg (by omega), if_neg (by omega)]
  by_cases hfirst : v / 262144 = 0
  · rw [if_pos (by omega), follow_three (by omega) (by omega) (by omega) (by omega) (by omega),
      ← hfirst, hvalue]
  · rw [if_neg (by omega)]
    by_cases hlast : v / 262144 = 4
    · rw [if_neg (by omega), if_pos (by omega),
        follow_three (by omega) (by omega) (by omega) (by omega) (by omega), ← hlast, hvalue]
    · rw [if_pos (by omega), Nat.add_sub_cancel,
        follow_three (by omega) (by omega) (by omega) (by omega) (by omega), hvalue]

/-- The bytes of a character are read as that character. -/
theorem next_utf8EncodeChar (c : Char) (rest : Bytes) :
    ∃ b more, String.utf8EncodeChar c = b :: more ∧ next b (more ++ rest) = (some c, rest) := by
  have hc : Char.ofNat c.val.toNat = c := Char.ofNat_toNat c
  have hvalid : c.val.toNat < 0xD800 ∨ 0xDFFF < c.val.toNat ∧ c.val.toNat < 0x110000 := c.valid
  generalize hv : c.val.toNat = v at hc hvalid
  rw [String.utf8EncodeChar, hv]
  by_cases h₁ : v ≤ 0x7F
  · exact ⟨_, _, if_pos h₁, hc ▸ next_one h₁⟩
  by_cases h₂ : v ≤ 0x7FF
  · exact ⟨_, _, (if_neg h₁).trans (if_pos h₂), hc ▸ next_two (by omega) h₂⟩
  by_cases h₃ : v ≤ 0xFFFF
  · exact ⟨_, _, (if_neg h₁).trans ((if_neg h₂).trans (if_pos h₃)),
      hc ▸ next_three (by omega) h₃ (by omega)⟩
  · exact ⟨_, _, (if_neg h₁).trans ((if_neg h₂).trans (if_neg h₃)),
      hc ▸ next_four (by omega) (by omega)⟩

/-! ## The bytes a character is read from -/

lemma toNat_ofNat {v : Nat} (hv : v < 0xD800 ∨ 0xDFFF < v ∧ v < 0x110000) :
    (Char.ofNat v).val.toNat = v := by
  have hvalid : v.isValidChar := hv
  rw [Char.ofNat, dif_pos hvalid]
  exact UInt32.toNat_ofNatLT

lemma exists_cons_of_follow {need lo hi acc : Nat} {bs rest : Bytes} {c : Char}
    (h : follow (need + 1) lo hi acc bs = (some c, rest)) :
    ∃ b more, bs = b :: more ∧ (lo ≤ b.toNat ∧ b.toNat ≤ hi) ∧
      follow need 0x80 0xBF (acc * 64 + (b.toNat - 0x80)) more = (some c, rest) := by
  cases bs with
  | nil => cases h
  | cons b more =>
    rw [follow] at h
    split at h
    · exact ⟨b, more, rfl, ‹_›, h⟩
    · cases h

lemma exists_one_of_follow {lo hi acc : Nat} {bs rest : Bytes} {c : Char}
    (h : follow 1 lo hi acc bs = (some c, rest)) :
    ∃ b, bs = b :: rest ∧ (lo ≤ b.toNat ∧ b.toNat ≤ hi) ∧
      c = Char.ofNat (acc * 64 + (b.toNat - 0x80)) := by
  obtain ⟨b, more, rfl, hb, h⟩ := exists_cons_of_follow h
  rw [follow, Prod.mk.injEq, Option.some.injEq] at h
  exact ⟨b, by rw [h.2], hb, h.1.symm⟩

lemma exists_two_of_follow {lo hi acc : Nat} {bs rest : Bytes} {c : Char}
    (h : follow 2 lo hi acc bs = (some c, rest)) :
    ∃ b₁ b₂, bs = b₁ :: b₂ :: rest ∧ (lo ≤ b₁.toNat ∧ b₁.toNat ≤ hi) ∧
      (0x80 ≤ b₂.toNat ∧ b₂.toNat ≤ 0xBF) ∧
      c = Char.ofNat ((acc * 64 + (b₁.toNat - 0x80)) * 64 + (b₂.toNat - 0x80)) := by
  obtain ⟨b₁, more, rfl, hb₁, h⟩ := exists_cons_of_follow h
  obtain ⟨b₂, rfl, hb₂, hc⟩ := exists_one_of_follow h
  exact ⟨b₁, b₂, rfl, hb₁, hb₂, hc⟩

lemma exists_three_of_follow {lo hi acc : Nat} {bs rest : Bytes} {c : Char}
    (h : follow 3 lo hi acc bs = (some c, rest)) :
    ∃ b₁ b₂ b₃, bs = b₁ :: b₂ :: b₃ :: rest ∧ (lo ≤ b₁.toNat ∧ b₁.toNat ≤ hi) ∧
      (0x80 ≤ b₂.toNat ∧ b₂.toNat ≤ 0xBF) ∧ (0x80 ≤ b₃.toNat ∧ b₃.toNat ≤ 0xBF) ∧
      c = Char.ofNat (((acc * 64 + (b₁.toNat - 0x80)) * 64 + (b₂.toNat - 0x80)) * 64 +
        (b₃.toNat - 0x80)) := by
  obtain ⟨b₁, more, rfl, hb₁, h⟩ := exists_cons_of_follow h
  obtain ⟨b₂, b₃, rfl, hb₂, hb₃, hc⟩ := exists_two_of_follow h
  exact ⟨b₁, b₂, b₃, rfl, hb₁, hb₂, hb₃, hc⟩

lemma utf8EncodeChar_one {b : UInt8} (h : b.toNat < 0x80) :
    String.utf8EncodeChar (Char.ofNat b.toNat) = [b] := by
  rw [String.utf8EncodeChar, toNat_ofNat (by omega)]
  simp only [UInt8.ofNat_toNat]
  rw [if_pos (by omega)]

lemma utf8EncodeChar_two {v : Nat} {b₁ b₂ : UInt8} (h₁ : 0xC2 ≤ b₁.toNat ∧ b₁.toNat ≤ 0xDF)
    (h₂ : 0x80 ≤ b₂.toNat ∧ b₂.toNat ≤ 0xBF)
    (hv : v = (b₁.toNat - 0xC0) * 64 + (b₂.toNat - 0x80)) :
    String.utf8EncodeChar (Char.ofNat v) = [b₁, b₂] := by
  have hb₁ : v / 64 % 32 + 192 = b₁.toNat := by omega
  have hb₂ : v % 64 + 128 = b₂.toNat := by omega
  rw [String.utf8EncodeChar, toNat_ofNat (by omega)]
  simp only [hb₁, hb₂, UInt8.ofNat_toNat]
  rw [if_neg (by omega), if_pos (by omega)]

lemma utf8EncodeChar_three {v : Nat} {b₁ b₂ b₃ : UInt8} (h₁ : 0xE0 ≤ b₁.toNat ∧ b₁.toNat ≤ 0xEF)
    (h₂ : 0x80 ≤ b₂.toNat ∧ b₂.toNat ≤ 0xBF) (h₃ : 0x80 ≤ b₃.toNat ∧ b₃.toNat ≤ 0xBF)
    (hv : v = ((b₁.toNat - 0xE0) * 64 + (b₂.toNat - 0x80)) * 64 + (b₃.toNat - 0x80))
    (hlow : 0x800 ≤ v) (hvalid : v < 0xD800 ∨ 0xDFFF < v) :
    String.utf8EncodeChar (Char.ofNat v) = [b₁, b₂, b₃] := by
  have hb₁ : v / 4096 % 16 + 224 = b₁.toNat := by omega
  have hb₂ : v / 64 % 64 + 128 = b₂.toNat := by omega
  have hb₃ : v % 64 + 128 = b₃.toNat := by omega
  rw [String.utf8EncodeChar, toNat_ofNat (by omega)]
  simp only [hb₁, hb₂, hb₃, UInt8.ofNat_toNat]
  rw [if_neg (by omega), if_neg (by omega), if_pos (by omega)]

lemma utf8EncodeChar_four {v : Nat} {b₁ b₂ b₃ b₄ : UInt8}
    (h₁ : 0xF0 ≤ b₁.toNat ∧ b₁.toNat ≤ 0xF4)
    (h₂ : 0x80 ≤ b₂.toNat ∧ b₂.toNat ≤ 0xBF) (h₃ : 0x80 ≤ b₃.toNat ∧ b₃.toNat ≤ 0xBF)
    (h₄ : 0x80 ≤ b₄.toNat ∧ b₄.toNat ≤ 0xBF)
    (hv : v = (((b₁.toNat - 0xF0) * 64 + (b₂.toNat - 0x80)) * 64 + (b₃.toNat - 0x80)) * 64 +
      (b₄.toNat - 0x80)) (hlow : 0x10000 ≤ v) (hhigh : v < 0x110000) :
    String.utf8EncodeChar (Char.ofNat v) = [b₁, b₂, b₃, b₄] := by
  have hb₁ : v / 262144 % 8 + 240 = b₁.toNat := by omega
  have hb₂ : v / 4096 % 64 + 128 = b₂.toNat := by omega
  have hb₃ : v / 64 % 64 + 128 = b₃.toNat := by omega
  have hb₄ : v % 64 + 128 = b₄.toNat := by omega
  rw [String.utf8EncodeChar, toNat_ofNat (by omega)]
  simp only [hb₁, hb₂, hb₃, hb₄, UInt8.ofNat_toNat]
  rw [if_neg (by omega), if_neg (by omega), if_neg (by omega)]

/-- The first byte of a form of three bytes leaves its four low bits to the rest. What the second
byte must be keeps too small values and surrogates out. -/
lemma cons_eq_of_follow_two {b : UInt8} {lo hi acc : Nat} {bs rest : Bytes} {c : Char}
    (hb : b.toNat = 0xE0 + acc) (hacc : acc ≤ 0xF) (hlo : 0x80 ≤ lo) (hhi : hi ≤ 0xBF)
    (hlow : acc = 0 → 0xA0 ≤ lo) (hvalid : acc = 13 → hi ≤ 0x9F)
    (h : follow 2 lo hi acc bs = (some c, rest)) : b :: bs = String.utf8EncodeChar c ++ rest := by
  obtain ⟨b₂, b₃, hbs, h₂, h₃, hc⟩ := exists_two_of_follow h
  have hbytes : String.utf8EncodeChar c = [b, b₂, b₃] := by
    rw [hc]
    exact utf8EncodeChar_three (by omega) (by omega) h₃ (by omega) (by omega) (by omega)
  rw [hbs, hbytes]
  rfl

/-- The first byte of a form of four bytes leaves its three low bits to the rest. What the second
byte must be keeps the values between those of three bytes and the last character. -/
lemma cons_eq_of_follow_three {b : UInt8} {lo hi acc : Nat} {bs rest : Bytes} {c : Char}
    (hb : b.toNat = 0xF0 + acc) (hacc : acc ≤ 4) (hlo : 0x80 ≤ lo) (hhi : hi ≤ 0xBF)
    (hlow : acc = 0 → 0x90 ≤ lo) (hhigh : acc = 4 → hi ≤ 0x8F)
    (h : follow 3 lo hi acc bs = (some c, rest)) : b :: bs = String.utf8EncodeChar c ++ rest := by
  obtain ⟨b₂, b₃, b₄, hbs, h₂, h₃, h₄, hc⟩ := exists_three_of_follow h
  have hbytes : String.utf8EncodeChar c = [b, b₂, b₃, b₄] := by
    rw [hc]
    exact utf8EncodeChar_four (by omega) (by omega) h₃ h₄ (by omega) (by omega) (by omega)
  rw [hbs, hbytes]
  rfl

/-- Bytes that are read as a character are the bytes of that character. -/
theorem cons_eq_of_next {b : UInt8} {bs rest : Bytes} {c : Char}
    (h : next b bs = (some c, rest)) : b :: bs = String.utf8EncodeChar c ++ rest := by
  simp only [next] at h
  split at h
  · rw [Prod.mk.injEq, Option.some.injEq] at h
    rw [← h.1, ← h.2, utf8EncodeChar_one ‹_›, List.singleton_append]
  split at h
  · obtain ⟨b₂, hbs, h₂, hc⟩ := exists_one_of_follow h
    rw [hbs, hc, utf8EncodeChar_two ‹_› h₂ rfl, List.cons_append, List.singleton_append]
  repeat' split at h
  -- The forms of three bytes and those of four; any other first byte starts no character.
  · exact cons_eq_of_follow_two (by omega) (by omega) (by omega) (by omega) (by omega) (by omega) h
  · exact cons_eq_of_follow_two (by omega) (by omega) (by omega) (by omega) (by omega) (by omega) h
  · exact cons_eq_of_follow_two (by omega) (by omega) (by omega) (by omega) (by omega) (by omega) h
  · exact cons_eq_of_follow_three (by omega) (by omega) (by omega) (by omega) (by omega) (by omega)
      h
  · exact cons_eq_of_follow_three (by omega) (by omega) (by omega) (by omega) (by omega) (by omega)
      h
  · exact cons_eq_of_follow_three (by omega) (by omega) (by omega) (by omega) (by omega) (by omega)
      h
  · cases h

/-! ## Characters of one byte -/

/-- The bytes below 0x80 stand for the characters with these numbers, and for no part of another
one. -/
lemma eq_of_mem_utf8EncodeChar {c : Char} {b : UInt8} (h : b ∈ String.utf8EncodeChar c)
    (hb : b.toNat < 0x80) : c = Char.ofNat b.toNat := by
  have hc : Char.ofNat c.val.toNat = c := Char.ofNat_toNat c
  rw [String.utf8EncodeChar] at h
  generalize c.val.toNat = v at hc h
  split at h
  · cases List.mem_singleton.1 h
    rw [UInt8.toNat_ofNat', Nat.mod_eq_of_lt (by omega), hc]
  · -- All bytes of a longer form are 0x80 or more.
    exfalso
    repeat' split at h
    all_goals
      simp only [List.mem_cons, List.not_mem_nil, or_false] at h
      rcases h with rfl | rfl | rfl | rfl
    all_goals
      rw [UInt8.toNat_ofNat'] at hb
      omega

/-- Only a character of one byte puts its byte into the bytes of a text. -/
lemma not_mem_encodeChars {cs : List Char} {b : UInt8} (hb : b.toNat < 0x80)
    (h : Char.ofNat b.toNat ∉ cs) : b ∉ encodeChars cs := by
  rw [encodeChars, List.mem_flatMap]
  rintro ⟨c, hc, hmem⟩
  exact h (eq_of_mem_utf8EncodeChar hmem hb ▸ hc)

/-! ## Whole texts -/

theorem scan_encodeChars (cs : List Char) : scan (encodeChars cs) = cs.map some := by
  induction cs with
  | nil => rw [encodeChars, List.flatMap_nil, scan, List.map_nil]
  | cons c cs ih =>
    obtain ⟨b, more, hbytes, hnext⟩ := next_utf8EncodeChar c (encodeChars cs)
    have hcons : encodeChars (c :: cs) = b :: (more ++ encodeChars cs) := by
      rw [encodeChars, List.flatMap_cons, hbytes]
      rfl
    rw [hcons, scan, hnext, ih, List.map_cons]

/-- Different texts have different bytes. -/
lemma encodeChars_injective : Function.Injective encodeChars := by
  intro cs ds h
  have hscan : cs.map some = ds.map some := by
    rw [← scan_encodeChars, ← scan_encodeChars, h]
  exact List.map_injective_iff.2 (fun _ _ => Option.some.inj) hscan

/-- Bytes that are read without a fault are the bytes of the characters read. -/
theorem eq_encodeChars_of_scan {bs : Bytes} {cs : List Char} (h : scan bs = cs.map some) :
    bs = encodeChars cs := by
  induction cs generalizing bs with
  | nil =>
    cases bs with
    | nil => rfl
    | cons b bs => rw [scan] at h; cases h
  | cons c cs ih =>
    cases bs with
    | nil => rw [scan] at h; cases h
    | cons b bs =>
      rw [scan, List.map_cons, List.cons.injEq] at h
      have hnext : next b bs = (some c, (next b bs).2) := Prod.ext h.1 rfl
      rw [cons_eq_of_next hnext, ih h.2]
      rfl

lemma mapM_id_eq_some_iff {α : Type} {ps : List (Option α)} {cs : List α} :
    ps.mapM id = some cs ↔ ps = cs.map some := by
  induction ps generalizing cs with
  | nil => cases cs <;> simp
  | cons p ps ih => cases p <;> cases cs <;> simp [Option.bind_eq_some_iff, ih, and_comm]

/-- Bytes are read as the text that they are the form of, and other bytes as none. -/
theorem decode?_eq_some_iff {bs : Bytes} {s : String} : decode? bs = some s ↔ bs = encode s := by
  rw [decode?, Option.map_eq_some_iff]
  constructor
  · rintro ⟨cs, hcs, rfl⟩
    rw [encode, String.toList_ofList]
    exact eq_encodeChars_of_scan (mapM_id_eq_some_iff.1 hcs)
  · rintro rfl
    refine ⟨s.toList, mapM_id_eq_some_iff.2 ?_, String.ofList_toList⟩
    rw [encode, scan_encodeChars]
/-- Reading the bytes of a text gives the text. -/
theorem decode?_encode (s : String) : decode? (encode s) = some s :=
  decode?_eq_some_iff.2 rfl

/-- In the bytes of a text there is nothing to replace. -/
theorem decodeLossy_encode (s : String) : decodeLossy (encode s) = s := by
  rw [decodeLossy, encode, scan_encodeChars, List.map_map]
  have hget : ((·.getD '\uFFFD') ∘ some : Char → Char) = id := rfl
  rw [hget, List.map_id, String.ofList_toList]

end StyleGuide.Utf8
