import Mathlib.Tactic.Common
import StyleGuide.Proofs.Glob.Segment
import StyleGuide.Proofs.Path.Order

/-!
# Globs with a plain path in front

Segments without special characters match the components that are written like them, so a glob
behind a plain path matches below that path what it matches alone.

## Main definitions

* `Glob.IsVerbatim`: the texts that stand for themselves.

## Main results

* `Glob.exists_parse_prefix`: a glob behind a plain path.
* `Glob.exists_parse_verbatim`: a plain path is a glob for itself.
-/

namespace StyleGuide.Glob

/-- The texts that stand for themselves in a glob. -/
def IsVerbatim (text : List Char) : Prop :=
  ∀ c ∈ text, c ∉ ['*', '?', '[', ']', '\x7b', '\x7d', '\\']

instance (text : List Char) : Decidable (IsVerbatim text) :=
  List.decidableBAll _ text

variable {s cs : List Char} {segments : List (List Char)} {names : List Bytes}

lemma IsVerbatim.isSimple (h : IsVerbatim s) : IsSimple s := by
  intro c hc
  have := h c hc
  grind

lemma IsVerbatim.ne_dirs (h : IsVerbatim s) : s ≠ ['*', '*'] := by
  rintro rfl
  exact h '*' (by simp) (by simp)

lemma IsVerbatim.map_ofChar (h : IsVerbatim s) : s.map Token.ofChar = s.map .literal := by
  apply List.map_congr_left
  intro c hc
  have := h c hc
  unfold Token.ofChar
  rw [if_neg (by grind), if_neg (by grind)]

/-- Plain characters match their bytes. -/
lemma mem_rests_literals_iff {t r : Bytes} :
    r ∈ rests (cs.map .literal) [t] ↔ t = Utf8.encodeChars cs ++ r := by
  induction cs generalizing t with
  | nil => simp [rests, Utf8.encodeChars, eq_comm]
  | cons c cs ih =>
    have hcons : Utf8.encodeChars (c :: cs) = String.utf8EncodeChar c ++ Utf8.encodeChars cs := rfl
    rw [List.map_cons, mem_rests_cons_iff, hcons, List.append_assoc]
    simp only [ih, Token.rests]
    constructor
    · rintro ⟨m, hm, rfl⟩
      split at hm
      · obtain ⟨back, rfl⟩ := List.isPrefixOf_iff_prefix.1 ‹_›
        simp_all
      · cases hm
    · rintro rfl
      exact ⟨Utf8.encodeChars cs ++ r, by simp, rfl⟩

/-- A segment of plain characters matches the component that is written like it. -/
lemma IsVerbatim.nil_mem_rests_iff (h : IsVerbatim s) {n : Bytes} :
    [] ∈ rests (s.map .ofChar) [n] ↔ n = Utf8.encodeChars s := by
  rw [h.map_ofChar, mem_rests_literals_iff, List.append_nil]

/-- Alone it is a glob for that component. -/
lemma IsVerbatim.aligned_iff (h : IsVerbatim s) (hne : s ≠ []) (hslash : '/' ∉ s) :
    Aligned (fun _ _ => True) [s] names ↔ names = [Utf8.encodeChars s] := by
  have hmatches : ∀ n, MatchesName s n ↔ n = Utf8.encodeChars s := fun n => by
    rw [matchesName_iff h.isSimple hslash hne h.ne_dirs, h.nil_mem_rests_iff]
  constructor
  · intro haligned
    cases haligned with
    | name _ hmatch _ hrest =>
      cases hrest
      rw [(hmatches _).1 hmatch]
    | _ => exact absurd rfl h.ne_dirs
  · rintro rfl
    exact .name h.ne_dirs ((hmatches _).2 rfl) trivial .nil

/-- Behind a plain path, a glob matches below that path what it matches alone. -/
theorem exists_parse_prefix (hsegments : ∀ s ∈ segments, IsVerbatim s ∧ s ≠ [] ∧ '/' ∉ s)
    (hne : cs ≠ []) (hlast : cs.getLast? ≠ some '/') {g : Glob} (hg : parse cs = .ok g) :
    ∃ whole, parse (joinWith '/' (segments ++ [cs])) = .ok whole ∧
      ∀ names, names ≠ [] → (∀ n ∈ names, Path.slash ∉ n) →
        (isMatch whole (joinWith Path.slash names) = true ↔
          ∃ back, back ≠ [] ∧ names = segments.map Utf8.encodeChars ++ back ∧
            isMatch g (joinWith Path.slash back) = true) := by
  induction segments with
  | nil => exact ⟨g, hg, fun names hnames _ => by grind⟩
  | cons s segments ih =>
    rw [List.forall_mem_cons] at hsegments
    obtain ⟨⟨hverbatim, hsne, hslash⟩, hsegments⟩ := hsegments
    obtain ⟨rest, hrest, hmatch⟩ := ih hsegments
    obtain ⟨hrne, hrlast⟩ := joinWith_concat_ne_nil '/' segments hne
    rw [← hrlast] at hlast
    obtain ⟨behind, hread, hbehind, hrests⟩ :=
      exists_readTokens_behind hrne hlast hrest (s.map Token.ofChar).reverse
    have hparse := parse_segment_append hverbatim.isSimple hslash hsne hverbatim.ne_dirs
      (joinWith '/' (segments ++ [cs]))
    rw [hread, List.reverse_reverse] at hparse
    refine ⟨s.map .ofChar ++ behind, ?_, fun names hnames hslashes => ?_⟩
    · rw [← hparse]
      obtain ⟨next, more, hmore⟩ := List.exists_cons_of_ne_nil
        (show segments ++ [cs] ≠ [] by simp)
      rw [List.cons_append, hmore, joinWith]
    · have hinner := isInner_of_mem_map hslash
      rw [isMatch_iff (map_ofChar_append_ne hsne hslash behind)]
      obtain ⟨n, names, rfl⟩ := List.exists_cons_of_ne_nil hnames
      rw [List.forall_mem_cons] at hslashes
      cases names with
      | nil =>
        refine iff_of_false (nil_not_mem_rests_inner_append hinner hbehind hslashes.1) ?_
        rintro ⟨back, hback, heq, -⟩
        simp_all
      | cons next names =>
        rw [joinWith, nil_mem_rests_inner_append hinner hbehind hslashes.1,
          hverbatim.nil_mem_rests_iff, hrests, hmatch _ (List.cons_ne_nil _ _) hslashes.2]
        simp only [List.map_cons, List.cons_append, List.cons.injEq]
        grind

/-- A plain path is a glob for itself. -/
theorem exists_parse_verbatim (hsegments : ∀ s ∈ segments, IsVerbatim s ∧ s ≠ [] ∧ '/' ∉ s)
    (hne : segments ≠ []) :
    ∃ whole, parse (joinWith '/' segments) = .ok whole ∧
      ∀ names, names ≠ [] → (∀ n ∈ names, Path.slash ∉ n) →
        (isMatch whole (joinWith Path.slash names) = true ↔
          names = segments.map Utf8.encodeChars) := by
  obtain ⟨front, s, rfl⟩ := (List.eq_nil_or_concat segments).resolve_left hne
  rw [List.concat_eq_append] at hsegments ⊢
  obtain ⟨hverbatim, hsne, hslash⟩ := hsegments s (by simp)
  have hparse := parse_segment hverbatim.isSimple hslash hsne hverbatim.ne_dirs
  have hfront : ∀ t ∈ front, IsVerbatim t ∧ t ≠ [] ∧ '/' ∉ t := fun t ht =>
    hsegments t (List.mem_append_left _ ht)
  obtain ⟨whole, hwhole, hmatch⟩ := exists_parse_prefix hfront hsne
    (fun hlast => hslash (List.mem_of_mem_getLast? hlast)) hparse
  refine ⟨whole, hwhole, fun names hnames hslashes => ?_⟩
  rw [hmatch names hnames hslashes, List.map_append, List.map_singleton]
  constructor
  · rintro ⟨back, hback, rfl, hmatched⟩
    have hslashes' : ∀ n ∈ back, Path.slash ∉ n := fun n hn => hslashes n (by simp [hn])
    rw [isMatch_segment_iff hverbatim.isSimple hslash hsne hverbatim.ne_dirs hback hslashes',
      hverbatim.aligned_iff hsne hslash] at hmatched
    rw [hmatched]
  · rintro rfl
    have hslashes' : ∀ n ∈ [Utf8.encodeChars s], Path.slash ∉ n := fun n hn =>
      hslashes n (by simp_all)
    refine ⟨_, List.cons_ne_nil _ _, rfl, ?_⟩
    rw [isMatch_segment_iff hverbatim.isSimple hslash hsne hverbatim.ne_dirs
      (List.cons_ne_nil _ _) hslashes']
    exact (hverbatim.aligned_iff hsne hslash).2 rfl

end StyleGuide.Glob
