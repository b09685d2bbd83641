import Mathlib.Tactic.Common
import StyleGuide.Glob.Match
import StyleGuide.Proofs.Text.Utf8

/-!
# Matching a part of a glob

A sequence of tokens leaves of a byte sequence what its last token leaves of what the others leave.
Tokens that stay inside a component see nothing of what stands behind the next separator.

## Main definitions

* `Glob.Token.IsInner`: the tokens that stay inside a component and match a known number of kinds of
  byte.
* `Glob.IsBehindSlash`: the sequences of tokens that begin with a separator.

## Main results

* `Glob.rests_append`, `Glob.mem_rests_iff`: sequences of tokens, and what they are matched from.
* `Glob.mem_rests_inner_append`: a component is matched on its own.
* `Glob.mem_afterDirs_iff`: what `**` leaves of a path.
-/

namespace StyleGuide.Glob

/-! ## Sequences of tokens -/

/-- The tokens of a sequence are matched one after the other. -/
theorem rests_append (as bs : List Token) (starts : List Bytes) :
    rests (as ++ bs) starts = rests bs (rests as starts) := by
  induction as generalizing starts with
  | nil => rw [List.nil_append, rests]
  | cons t as ih => rw [List.cons_append, rests, rests, ih]

lemma mem_rests_cons {t : Token} {ts : List Token} {starts : List Bytes} {r : Bytes}
    (hts : ∀ starts, r ∈ rests ts starts ↔ ∃ s ∈ starts, r ∈ rests ts [s]) :
    r ∈ rests (t :: ts) starts ↔ ∃ s ∈ starts, ∃ m ∈ t.rests s, r ∈ rests ts [m] := by
  rw [rests, hts]
  simp only [List.mem_eraseDups, List.mem_flatMap]
  grind

/-- What is left is left of one of the byte sequences that the tokens are matched from. -/
theorem mem_rests_iff {ts : List Token} {starts : List Bytes} {r : Bytes} :
    r ∈ rests ts starts ↔ ∃ s ∈ starts, r ∈ rests ts [s] := by
  induction ts generalizing starts with
  | nil => simp [rests]
  | cons t ts ih =>
    rw [mem_rests_cons fun _ => ih]
    simp only [mem_rests_cons fun _ => ih, List.mem_singleton, exists_eq_left]

lemma mem_rests_cons_iff {t : Token} {ts : List Token} {s r : Bytes} :
    r ∈ rests (t :: ts) [s] ↔ ∃ m ∈ t.rests s, r ∈ rests ts [m] := by
  simp [mem_rests_cons fun _ => mem_rests_iff]

lemma mem_rests_append_iff {as bs : List Token} {s r : Bytes} :
    r ∈ rests (as ++ bs) [s] ↔ ∃ m ∈ rests as [s], r ∈ rests bs [m] := by
  rw [rests_append, mem_rests_iff]

/-- But for a single `**`, a glob matches what it leaves nothing of. -/
lemma isMatch_iff {g : Glob} (h : g ≠ [.leadingDirs]) {path : Bytes} :
    isMatch g path = true ↔ [] ∈ rests g [path] := by
  unfold isMatch
  split
  · exact absurd rfl h
  · simp

/-! ## Tokens inside a component -/

/-- The plain tokens that match no separator. -/
def Token.IsInner : Token → Prop
  | .literal c => c ≠ '/'
  | .any | .star => True
  | _ => False

/-- A byte sequence that does not go on with the component before it. -/
def EndsComponent (tail : Bytes) : Prop := tail = [] ∨ tail.head? = some Path.slash

lemma isPrefixOf_append {bytes n tail : Bytes} (hbytes : Path.slash ∉ bytes)
    (htail : EndsComponent tail) : bytes.isPrefixOf (n ++ tail) = bytes.isPrefixOf n := by
  induction n generalizing bytes with
  | nil =>
    cases bytes with
    | nil => simp
    | cons b bytes =>
      rcases htail with rfl | htail
      · rfl
      · obtain ⟨more, rfl⟩ := List.head?_eq_some_iff.1 htail
        have hb : b ≠ Path.slash := fun h => hbytes (h ▸ List.mem_cons_self)
        simp [List.isPrefixOf, hb]
  | cons x n ih =>
    cases bytes with
    | nil => simp
    | cons b bytes =>
      simp only [List.cons_append, List.isPrefixOf]
      rw [ih fun h => hbytes (List.mem_cons_of_mem _ h)]

lemma afterRun_append {n tail : Bytes} (hn : Path.slash ∉ n) (htail : EndsComponent tail) :
    afterRun (n ++ tail) = (afterRun n).map (· ++ tail) := by
  induction n with
  | nil =>
    rcases htail with rfl | htail
    · rfl
    · obtain ⟨more, rfl⟩ := List.head?_eq_some_iff.1 htail
      simp [afterRun]
  | cons b n ih =>
    simp only [List.mem_cons, not_or] at hn
    simp [afterRun, Ne.symm hn.1, ih hn.2]

/-- An inner token matches inside a component as if there were nothing behind it. -/
lemma Token.IsInner.rests_append {t : Token} (ht : t.IsInner) {n tail : Bytes}
    (hn : Path.slash ∉ n) (htail : EndsComponent tail) :
    t.rests (n ++ tail) = (t.rests n).map (· ++ tail) := by
  cases t with
  | literal c =>
    have hbytes : Path.slash ∉ String.utf8EncodeChar c := fun h =>
      ht (Utf8.eq_of_mem_utf8EncodeChar h (by decide))
    simp only [Token.rests, isPrefixOf_append hbytes htail]
    split_ifs with hprefix
    · have hlen := (List.isPrefixOf_iff_prefix.1 hprefix).length_le
      rw [List.map_singleton, List.drop_append_of_le_length hlen]
    · rfl
  | any =>
    cases n with
    | nil =>
      rcases htail with rfl | htail
      · rfl
      · obtain ⟨more, rfl⟩ := List.head?_eq_some_iff.1 htail
        simp [Token.rests]
    | cons b n =>
      simp only [List.mem_cons, not_or] at hn
      simp [Token.rests, Ne.symm hn.1]
  | star => exact afterRun_append hn htail
  | _ => cases ht

lemma suffix_of_mem_afterRun {s m : Bytes} (h : m ∈ afterRun s) : m <:+ s := by
  induction s with
  | nil => simp_all [afterRun]
  | cons b s ih =>
    rw [afterRun] at h
    rcases List.mem_cons.1 h with rfl | h
    · exact List.suffix_refl _
    · split at h
      · cases h
      · exact (ih h).trans (List.suffix_cons _ _)

lemma Token.IsInner.suffix {t : Token} (ht : t.IsInner) {s m : Bytes} (h : m ∈ t.rests s) :
    m <:+ s := by
  cases t with
  | literal c =>
    simp only [Token.rests] at h
    split at h
    · cases List.mem_singleton.1 h
      exact List.drop_suffix _ _
    · cases h
  | any =>
    cases s with
    | nil => cases h
    | cons b s =>
      simp only [Token.rests] at h
      split at h
      · cases h
      · cases List.mem_singleton.1 h
        exact List.suffix_cons _ _
  | star => exact suffix_of_mem_afterRun h
  | _ => cases ht

section Component

variable {ts g : List Token} {n tail s : Bytes}

/-- Inner tokens match a component as if there were nothing behind it. -/
theorem mem_rests_inner_append (hts : ∀ t ∈ ts, t.IsInner) (hn : Path.slash ∉ n)
    (htail : EndsComponent tail) {r : Bytes} :
    r ∈ rests ts [n ++ tail] ↔ ∃ m ∈ rests ts [n], Path.slash ∉ m ∧ r = m ++ tail := by
  induction ts generalizing n with
  | nil => simp [rests, hn]
  | cons t ts ih =>
    simp only [List.mem_cons, forall_eq_or_imp] at hts
    have hleft : ∀ m ∈ t.rests n, Path.slash ∉ m := fun m hm h =>
      hn ((hts.1.suffix hm).subset h)
    simp only [mem_rests_cons_iff, hts.1.rests_append hn htail, List.mem_map]
    constructor
    · rintro ⟨_, ⟨m, hm, rfl⟩, hr⟩
      obtain ⟨k, hk, hslash, rfl⟩ := (ih hts.2 (hleft m hm)).1 hr
      exact ⟨k, ⟨m, hm, hk⟩, hslash, rfl⟩
    · rintro ⟨k, ⟨m, hm, hk⟩, hslash, rfl⟩
      exact ⟨_, ⟨m, hm, rfl⟩, (ih hts.2 (hleft m hm)).2 ⟨k, hk, hslash, rfl⟩⟩

/-- The sequences of tokens that match only what begins with a separator. -/
def IsBehindSlash (g : List Token) : Prop :=
  ∀ s, [] ∈ rests g [s] → s.head? = some Path.slash

/-- In front of a separator, inner tokens match the first component and nothing else. -/
theorem nil_mem_rests_inner_append (hts : ∀ t ∈ ts, t.IsInner) (hg : IsBehindSlash g)
    (hn : Path.slash ∉ n) :
    [] ∈ rests (ts ++ g) [n ++ Path.slash :: s] ↔
      [] ∈ rests ts [n] ∧ [] ∈ rests g [Path.slash :: s] := by
  have htail : EndsComponent (Path.slash :: s) := .inr rfl
  simp only [mem_rests_append_iff, mem_rests_inner_append hts hn htail]
  constructor
  · rintro ⟨_, ⟨m, hm, hslash, rfl⟩, h⟩
    -- What is left of the component begins with no separator unless it is empty.
    cases m with
    | nil => exact ⟨hm, h⟩
    | cons b m =>
      obtain rfl : b = Path.slash := by simpa using hg _ h
      exact absurd List.mem_cons_self hslash
  · rintro ⟨hm, h⟩
    exact ⟨_, ⟨[], hm, by simp, rfl⟩, h⟩

/-- A single component is not followed by a separator. -/
lemma nil_not_mem_rests_inner_append (hts : ∀ t ∈ ts, t.IsInner) (hg : IsBehindSlash g)
    (hn : Path.slash ∉ n) : [] ∉ rests (ts ++ g) [n] := by
  rw [mem_rests_append_iff]
  rintro ⟨m, hm, h⟩
  rw [← List.append_nil n, mem_rests_inner_append hts hn (.inl rfl)] at hm
  obtain ⟨m, -, hslash, rfl⟩ := hm
  rw [List.append_nil] at h
  exact hslash (List.mem_of_mem_head? (hg m h))

/-- Inner tokens match no separator. -/
lemma nil_not_mem_rests_inner (hts : ∀ t ∈ ts, t.IsInner) (hn : Path.slash ∉ n) :
    [] ∉ rests ts [n ++ Path.slash :: s] := by
  rw [mem_rests_inner_append hts hn (.inr rfl)]
  rintro ⟨m, -, -, h⟩
  cases m <;> cases h

end Component

/-! ## Directories -/

lemma behindSlash_eq_nil {n : Bytes} (hn : Path.slash ∉ n) : behindSlash n = [] := by
  induction n with
  | nil => rfl
  | cons b n ih =>
    simp only [List.mem_cons, not_or] at hn
    rw [behindSlash, if_neg (Ne.symm hn.1), ih hn.2]

lemma behindSlash_append {n : Bytes} (hn : Path.slash ∉ n) (s : Bytes) :
    behindSlash (n ++ Path.slash :: s) = afterDirs s := by
  induction n with
  | nil => simp [behindSlash, afterDirs]
  | cons b n ih =>
    simp only [List.mem_cons, not_or] at hn
    rw [List.cons_append, behindSlash, if_neg (Ne.symm hn.1), ih hn.2]

lemma behindSlash_subset {s m : Bytes} (hm : m ∈ behindSlash s) :
    behindSlash m ⊆ behindSlash s := by
  induction s with
  | nil => cases hm
  | cons b s ih =>
    rw [behindSlash] at hm ⊢
    split at hm
    · rw [if_pos ‹_›]
      rcases List.mem_cons.1 hm with rfl | hm
      · exact List.subset_cons_self _ _
      · exact List.Subset.trans (ih hm) (List.subset_cons_self _ _)
    · rw [if_neg ‹_›]
      exact ih hm

/-- Directories left out in two steps can be left out in one. -/
lemma mem_afterDirs_trans {s m r : Bytes} (hm : m ∈ afterDirs s) (hr : r ∈ afterDirs m) :
    r ∈ afterDirs s := by
  rcases List.mem_cons.1 hm with rfl | hm
  · exact hr
  · rcases List.mem_cons.1 hr with rfl | hr
    · exact List.mem_cons_of_mem _ hm
    · exact List.mem_cons_of_mem _ (behindSlash_subset hm hr)

/-- What is left of a path without some directories in front. -/
theorem mem_afterDirs_joinWith_iff {names : List Bytes} (hne : names ≠ [])
    (hnames : ∀ n ∈ names, Path.slash ∉ n) {s : Bytes} :
    s ∈ afterDirs (joinWith Path.slash names) ↔
      ∃ back, back ≠ [] ∧ back <:+ names ∧ s = joinWith Path.slash back := by
  induction names with
  | nil => exact absurd rfl hne
  | cons n names ih =>
    simp only [List.mem_cons, forall_eq_or_imp] at hnames
    simp only [List.suffix_cons_iff, and_or_left, or_and_right, exists_or]
    cases names with
    | nil => simp [afterDirs, joinWith, behindSlash_eq_nil hnames.1]
    | cons next names =>
      rw [joinWith, afterDirs, behindSlash_append hnames.1, List.mem_cons,
        ih (List.cons_ne_nil _ _) hnames.2]
      simp [joinWith]

end StyleGuide.Glob
