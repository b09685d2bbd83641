import StyleGuide.Proofs.Glob.Segment

/-!
# Wildcards inside components

Without `**`, choices, classes and escapes, every character of a glob stands for something of its
own. A star stands for a run within a component and a question mark for one byte, so only a
separator stands for a separator: a path is matched component by component, by as many segments as
it has components.

## Main definitions

* `Glob.StandsFor`: what a character of a glob can stand for.
* `Glob.Spells`: what a text can stand for, character by character.

## Main results

* `Glob.exists_parse_spells`: such a glob matches what it spells.
* `Glob.Spells.cut`: what a text spells is spelled segment by segment.
-/

namespace StyleGuide.Glob

/-- What a character of a glob can stand for: `*` for a run within a component, `?` for one byte
other than the separator, and any other character for itself. -/
def StandsFor (c : Char) (part : Bytes) : Prop :=
  if c = '*' then Path.slash ∉ part
  else if c = '?' then ∃ b, b ≠ Path.slash ∧ part = [b]
  else part = String.utf8EncodeChar c

/-- What a text can stand for, character by character. -/
def Spells (text : List Char) (s : Bytes) : Prop :=
  ∃ parts, List.Forall₂ StandsFor text parts ∧ s = parts.flatten

variable {c : Char} {cs text : List Char} {s m part rest : Bytes}

/-! ## Reading character by character -/

/-- Without two stars in a row, every character is one token. -/
lemma readTokens_eq_map (hsimple : IsSimple cs) (hstars : ¬ ['*', '*'] <:+: cs)
    (before : Option Char) (ts : List Token) :
    readTokens before ⟨ts, []⟩ cs = .ok (ts.reverse ++ cs.map .ofChar) := by
  induction cs generalizing before ts with
  | nil => simp [readTokens, Draft.finish]
  | cons c cs ih =>
    rw [isSimple_cons_iff] at hsimple
    have hnext : ∀ more, c = '*' → cs ≠ '*' :: more := by
      rintro more rfl rfl
      exact hstars (List.prefix_append ['*', '*'] more).isInfix
    have hbehind : ¬ ['*', '*'] <:+: cs := fun h => hstars (h.trans (List.suffix_cons c cs).isInfix)
    rw [readTokens_char hsimple.1 hnext, ih hsimple.2 hbehind]
    simp

lemma ofChar_ne_leadingDirs (c : Char) : Token.ofChar c ≠ .leadingDirs := by
  unfold Token.ofChar
  split
  · simp
  · split <;> simp

/-! ## Matching character by character -/

lemma mem_afterRun_iff : m ∈ afterRun s ↔ ∃ part, Path.slash ∉ part ∧ s = part ++ m := by
  induction s with
  | nil => simp [afterRun, eq_comm]
  | cons b s ih =>
    rw [afterRun, List.mem_cons]
    constructor
    · rintro (rfl | h)
      · exact ⟨[], by simp, rfl⟩
      · split_ifs at h with hb
        · cases h
        · obtain ⟨part, hpart, rfl⟩ := ih.1 h
          exact ⟨b :: part, by simp [Ne.symm hb, hpart], rfl⟩
    · rintro ⟨_ | ⟨x, part⟩, hpart, heq⟩
      · exact .inl heq.symm
      · obtain ⟨rfl, hs⟩ := List.cons.inj heq
        rw [List.mem_cons, not_or] at hpart
        rw [if_neg (Ne.symm hpart.1)]
        exact .inr (ih.2 ⟨part, hpart.2, hs⟩)

lemma mem_rests_any_iff :
    m ∈ Token.any.rests s ↔ ∃ part, (∃ b, b ≠ Path.slash ∧ part = [b]) ∧ s = part ++ m := by
  cases s with
  | nil => simp [Token.rests]
  | cons b s =>
    simp only [Token.rests]
    constructor
    · intro h
      split_ifs at h with hb
      · cases h
      · rw [List.mem_singleton.1 h]
        exact ⟨[b], ⟨b, hb, rfl⟩, rfl⟩
    · rintro ⟨_, ⟨b', hb', rfl⟩, heq⟩
      obtain ⟨rfl, rfl⟩ := List.cons.inj heq
      simp [hb']

lemma mem_rests_literal_iff :
    m ∈ (Token.literal c).rests s ↔ s = String.utf8EncodeChar c ++ m := by
  simp only [Token.rests]
  constructor
  · intro h
    split_ifs at h with hstarts
    · obtain ⟨rest, rfl⟩ := List.isPrefixOf_iff_prefix.1 hstarts
      rw [List.mem_singleton.1 h, List.drop_left]
    · cases h
  · rintro rfl
    simp

/-- The token of a character leaves what stands behind a part that the character stands for. -/
lemma mem_rests_ofChar_iff :
    m ∈ (Token.ofChar c).rests s ↔ ∃ part, StandsFor c part ∧ s = part ++ m := by
  unfold Token.ofChar StandsFor
  split
  · exact mem_afterRun_iff
  · split
    · exact mem_rests_any_iff
    · rw [mem_rests_literal_iff]
      simp

lemma spells_nil_iff : Spells [] s ↔ s = [] := by
  simp [Spells]

lemma spells_cons_iff :
    Spells (c :: cs) s ↔ ∃ part rest, StandsFor c part ∧ Spells cs rest ∧ s = part ++ rest := by
  simp only [Spells, List.forall₂_cons_left_iff]
  constructor
  · rintro ⟨_, ⟨part, parts, hpart, hparts, rfl⟩, rfl⟩
    exact ⟨part, parts.flatten, hpart, ⟨parts, hparts, rfl⟩, List.flatten_cons⟩
  · rintro ⟨part, _, hpart, ⟨parts, hparts, rfl⟩, rfl⟩
    exact ⟨part :: parts, ⟨part, parts, hpart, hparts, rfl⟩, List.flatten_cons.symm⟩

lemma nil_mem_rests_map_iff : [] ∈ rests (text.map .ofChar) [s] ↔ Spells text s := by
  induction text generalizing s with
  | nil => simp [rests, spells_nil_iff, eq_comm]
  | cons c cs ih =>
    rw [List.map_cons, mem_rests_cons_iff, spells_cons_iff]
    simp only [mem_rests_ofChar_iff, ih]
    grind

/-- A glob without `**`, choices, classes and escapes matches what it spells. -/
theorem exists_parse_spells (hsimple : IsSimple text) (hstars : ¬ ['*', '*'] <:+: text) :
    ∃ g, parse text = .ok g ∧ ∀ s, isMatch g s = true ↔ Spells text s := by
  have hsingle : text.map Token.ofChar ≠ [.leadingDirs] := by
    intro h
    obtain ⟨c, -, hc⟩ := List.mem_map.1 (h.symm ▸ List.mem_singleton_self Token.leadingDirs)
    exact ofChar_ne_leadingDirs c hc
  refine ⟨text.map .ofChar, readTokens_eq_map hsimple hstars none [], fun s => ?_⟩
  rw [isMatch_iff hsingle, nil_mem_rests_map_iff]

/-! ## Segment by segment -/

/-- Only a separator stands for a separator. -/
lemma StandsFor.slash_not_mem (h : StandsFor c part) (hc : c ≠ '/') : Path.slash ∉ part := by
  unfold StandsFor at h
  split at h
  · exact h
  · split at h
    · obtain ⟨b, hb, rfl⟩ := h
      simpa using hb.symm
    · subst h
      exact fun hmem => hc (Utf8.eq_of_mem_utf8EncodeChar hmem (by decide))

/-- What a text spells is spelled segment by segment. -/
theorem Spells.cut (h : Spells text s) :
    List.Forall₂ Spells (cut (· == '/') text) (cut (· == Path.slash) s) := by
  induction text generalizing s with
  | nil =>
    rw [spells_nil_iff.1 h]
    exact .cons (spells_nil_iff.2 rfl) .nil
  | cons c cs ih =>
    obtain ⟨part, rest, hpart, hrest, rfl⟩ := spells_cons_iff.1 h
    have hbehind := ih hrest
    by_cases hc : c = '/'
    · subst hc
      obtain rfl : part = [Path.slash] := hpart
      exact .cons (spells_nil_iff.2 rfl) hbehind
    · have hpart' : ∀ b ∈ part, (b == Path.slash) = false := fun b hb =>
        beq_false_of_ne (ne_of_mem_of_not_mem hb (hpart.slash_not_mem hc))
      have hc' : ∀ x ∈ [c], (x == '/') = false := by simpa using hc
      obtain ⟨segment, segments, hcs, hccs⟩ := exists_cut_append hc' cs
      obtain ⟨name, names, hnames, hall⟩ := exists_cut_append hpart' rest
      rw [hcs, hnames, List.forall₂_cons] at hbehind
      rw [← List.singleton_append, hccs, hall]
      exact .cons (spells_cons_iff.2 ⟨part, name, hpart, hbehind.1, rfl⟩) hbehind.2

end StyleGuide.Glob
