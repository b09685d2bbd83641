import Mathlib.Tactic.Common
import StyleGuide.Proofs.Glob.Match
import StyleGuide.Proofs.Glob.Reader
import StyleGuide.Proofs.Text.Cut

/-!
# Globs segment by segment

A glob is cut at its separators. Behind a separator the rest of the glob matches what it matches
alone, so a path is matched by matching its components against the segments, one after the other. A
segment `**` takes any number of components, and at least one where it is the last segment.

## Main definitions

* `Glob.ReadsBelow`: what is read behind a `**`.
* `Glob.MatchesName`: a segment matches one component.
* `Glob.Aligned`: the components of a path stand against the segments of a glob.

## Main results

* `Glob.exists_readTokens_behind`: the rest of a glob behind a separator.
* `Glob.isMatch_iff_aligned`: without choices, classes and escapes, a glob matches what can be
  aligned with its segments.
-/

namespace StyleGuide.Glob

variable {cs : List Char} {g : Glob}

/-! ## Behind a separator -/

lemma nil_mem_suffixes (s : Bytes) : [] ∈ suffixes s := by
  induction s with
  | nil => exact List.mem_singleton_self _
  | cons b s ih => exact List.mem_cons_of_mem _ ih

lemma isBehindSlash_literal (g : List Token) : IsBehindSlash (.literal '/' :: g) := by
  intro s h
  obtain ⟨m, hm, -⟩ := mem_rests_cons_iff.1 h
  have hslash : String.utf8EncodeChar '/' = [Path.slash] := rfl
  cases s <;> simp_all [Token.rests]

lemma isBehindSlash_innerDirs (g : List Token) : IsBehindSlash (.innerDirs :: g) := by
  intro s h
  obtain ⟨m, hm, -⟩ := mem_rests_cons_iff.1 h
  cases s <;> simp_all [Token.rests]

lemma isBehindSlash_everythingBelow (g : List Token) : IsBehindSlash (.everythingBelow :: g) := by
  intro s h
  obtain ⟨m, hm, -⟩ := mem_rests_cons_iff.1 h
  cases s <;> simp_all [Token.rests]

lemma parse_stars : parse ['*', '*'] = .ok [.leadingDirs] := by
  rw [parse, readTokens_stars]
  rfl

lemma parse_dirs (cs : List Char) :
    parse ('*' :: '*' :: '/' :: cs) = readTokens (some '/') ⟨[.leadingDirs], []⟩ cs := by
  rw [parse, readTokens]
  rfl

lemma readTokens_leadingDirs_dirs (cs : List Char) :
    readTokens (some '/') ⟨[.leadingDirs], []⟩ ('*' :: '*' :: '/' :: cs) =
      readTokens (some '/') ⟨[.leadingDirs], []⟩ cs := by
  rw [readTokens]
  rfl

/-- Where a text can be read behind a leading `**`, it can be read alone. -/
lemma exists_parse_of_leadingDirs (hne : cs ≠ [])
    (h : readTokens (some '/') ⟨[.leadingDirs], []⟩ cs = .ok g) : ∃ g', parse cs = .ok g' := by
  by_cases hdirs : StartsWithDirs cs
  · rcases hdirs with rfl | ⟨rest, rfl⟩
    · exact ⟨_, parse_stars⟩
    · rw [readTokens_leadingDirs_dirs] at h
      exact ⟨g, by rw [parse_dirs, h]⟩
  · rw [(parse_behind hne hdirs _).1] at h
    obtain ⟨g', hg', -⟩ := map_eq_ok_iff.1 h
    exact ⟨g', hg'⟩

/-- A text that goes on behind `**/` does so with a text that does not end in a separator. -/
lemma rest_of_dirs {rest : List Char} (hlast : ('*' :: '*' :: '/' :: rest).getLast? ≠ some '/') :
    rest ≠ [] ∧ rest.getLast? ≠ some '/' := by
  cases rest <;> simp_all

/-- What is left of a glob behind a separator stands for all that is below. -/
lemma nil_mem_rests_everythingBelow (s : Bytes) :
    [] ∈ rests [.everythingBelow] [Path.slash :: s] ↔ isMatch [.leadingDirs] s = true := by
  simpa [isMatch, rests, Token.rests] using nil_mem_suffixes s

/-- What is read behind a `**` that leads a glob (`alone`), and behind one inside (`behind`). Both
match below any directories what the text matches alone. -/
structure ReadsBelow (cs : List Char) (g below alone behind : List Token) : Prop where
  readTokens_leading : readTokens (some '/') ⟨[.leadingDirs], []⟩ cs = .ok alone
  readTokens_inner :
    readTokens (some '/') ⟨.innerDirs :: below, []⟩ cs = .ok (below.reverse ++ behind)
  isBehindSlash : IsBehindSlash behind
  isMatch_iff : ∀ s, isMatch alone s = true ↔ ∃ r ∈ afterDirs s, isMatch g r = true
  nil_mem_iff : ∀ s, [] ∈ rests behind [Path.slash :: s] ↔ isMatch alone s = true

/-- The last `**` of several in a row takes all that is left. -/
lemma readsBelow_stars (below : List Token) :
    ReadsBelow ['*', '*'] [.leadingDirs] below [.leadingDirs] [.everythingBelow] where
  readTokens_leading := by
    rw [readTokens_stars]
    rfl
  readTokens_inner := by
    rw [readTokens_stars]
    exact congrArg Except.ok List.reverse_cons
  isBehindSlash := isBehindSlash_everythingBelow _
  isMatch_iff s := by
    simp only [isMatch, and_true, true_iff]
    exact ⟨s, List.mem_cons_self⟩
  nil_mem_iff := nil_mem_rests_everythingBelow

/-- Two in a row are one. -/
lemma ReadsBelow.dirs {rest : List Char} {below alone behind : List Token}
    (h : ReadsBelow rest g below alone behind) :
    ReadsBelow ('*' :: '*' :: '/' :: rest) alone below alone behind where
  readTokens_leading := by rw [readTokens_leadingDirs_dirs, h.readTokens_leading]
  readTokens_inner := by
    rw [readTokens]
    exact h.readTokens_inner
  isBehindSlash := h.isBehindSlash
  isMatch_iff s := by
    simp only [h.isMatch_iff]
    constructor
    · rintro ⟨r, hr, hmatch⟩
      exact ⟨s, List.mem_cons_self, r, hr, hmatch⟩
    · rintro ⟨m, hm, r, hr, hmatch⟩
      exact ⟨r, mem_afterDirs_trans hm hr, hmatch⟩
  nil_mem_iff := h.nil_mem_iff

/-- Behind the last one the text is read as it is alone. -/
lemma readsBelow_of_not_dirs (hne : cs ≠ []) (hdirs : ¬ StartsWithDirs cs) (hg : parse cs = .ok g)
    (below : List Token) : ReadsBelow cs g below (.leadingDirs :: g) (.innerDirs :: g) := by
  obtain ⟨halone, hsingle⟩ := parse_behind hne hdirs [.leadingDirs]
  obtain ⟨hbehind, -⟩ := parse_behind hne hdirs (.innerDirs :: below)
  obtain ⟨hgne, hg'⟩ := hsingle g hg
  have hlead : ∀ s, isMatch (.leadingDirs :: g) s = true ↔
      ∃ r ∈ afterDirs s, isMatch g r = true := by
    intro s
    rw [isMatch_iff (by simpa using hgne), mem_rests_cons_iff]
    simp only [isMatch_iff hg']
    rfl
  refine ⟨by rw [halone, hg]; rfl, ?_, isBehindSlash_innerDirs _, hlead, fun s => ?_⟩
  · rw [hbehind, hg]
    simp [Except.map]
  · rw [hlead, mem_rests_cons_iff]
    simp only [isMatch_iff hg']
    simp [Token.rests]

/-- Behind a `**` every text is read as it is alone. -/
lemma exists_readsBelow (hne : cs ≠ []) (hlast : cs.getLast? ≠ some '/') (hg : parse cs = .ok g)
    (below : List Token) : ∃ alone behind, ReadsBelow cs g below alone behind := by
  induction hk : cs.length using Nat.strongRecOn generalizing cs g with
  | ind k ih =>
    subst hk
    by_cases hdirs : StartsWithDirs cs
    · rcases hdirs with rfl | ⟨rest, rfl⟩
      · rw [parse_stars] at hg
        cases hg
        exact ⟨_, _, readsBelow_stars below⟩
      · obtain ⟨hne', hlast'⟩ := rest_of_dirs hlast
        rw [parse_dirs] at hg
        obtain ⟨g', hg'⟩ := exists_parse_of_leadingDirs hne' hg
        obtain ⟨alone, behind, h⟩ :=
          ih _ (by simp only [List.length_cons]; omega) hne' hlast' hg' rfl
        obtain rfl : alone = g := by simpa [h.readTokens_leading] using hg
        exact ⟨_, _, h.dirs⟩
    · exact ⟨_, _, readsBelow_of_not_dirs hne hdirs hg below⟩

/-- Behind a separator, the rest of a glob matches what it matches alone. -/
theorem exists_readTokens_behind (hne : cs ≠ []) (hlast : cs.getLast? ≠ some '/')
    (hg : parse cs = .ok g) (below : List Token) :
    ∃ behind, readTokens (some '/') ⟨.literal '/' :: below, []⟩ cs =
        .ok (below.reverse ++ behind) ∧
      IsBehindSlash behind ∧
      ∀ s, [] ∈ rests behind [Path.slash :: s] ↔ isMatch g s = true := by
  by_cases hdirs : StartsWithDirs cs
  · rcases hdirs with rfl | ⟨rest, rfl⟩
    · rw [parse_stars] at hg
      cases hg
      refine ⟨[.everythingBelow], ?_, isBehindSlash_everythingBelow _,
        nil_mem_rests_everythingBelow⟩
      rw [readTokens_stars]
      exact congrArg Except.ok List.reverse_cons
    · obtain ⟨hne', hlast'⟩ := rest_of_dirs hlast
      rw [parse_dirs] at hg
      obtain ⟨g', hg'⟩ := exists_parse_of_leadingDirs hne' hg
      obtain ⟨alone, behind, h⟩ := exists_readsBelow hne' hlast' hg' below
      obtain rfl : alone = g := by simpa [h.readTokens_leading] using hg
      refine ⟨behind, ?_, h.isBehindSlash, h.nil_mem_iff⟩
      rw [readTokens]
      exact h.readTokens_inner
  · obtain ⟨hbehind, hsingle⟩ := parse_behind hne hdirs (.literal '/' :: below)
    refine ⟨.literal '/' :: g, ?_, isBehindSlash_literal _, fun s => ?_⟩
    · rw [hbehind, hg]
      simp [Except.map]
    · have hslash : String.utf8EncodeChar '/' = [Path.slash] := rfl
      rw [isMatch_iff (hsingle g hg).2, mem_rests_cons_iff]
      simp [Token.rests, hslash]

/-! ## Simple segments -/

/-- The texts without choices, classes and escapes. -/
def IsSimple (text : List Char) : Prop :=
  ∀ c ∈ text, c ∉ ['[', ']', '{', '}', '\\']

lemma isSimple_cons_iff {c : Char} {text : List Char} :
    IsSimple (c :: text) ↔ c ∉ ['[', ']', '{', '}', '\\'] ∧ IsSimple text :=
  List.forall_mem_cons

/-- What a character of such a text stands for inside a segment. -/
def Token.ofChar (c : Char) : Token :=
  if c = '*' then .star else if c = '?' then .any else .literal c

/-- What stands behind a segment. -/
def EndsSegment (rest : List Char) : Prop := rest = [] ∨ rest.head? = some '/'

lemma isInner_ofChar {c : Char} (h : c ≠ '/') : (Token.ofChar c).IsInner := by
  unfold Token.ofChar
  split
  · trivial
  · split
    · trivial
    · exact h

/-- A character of a simple text is one token, unless it is the first star of two. -/
lemma readTokens_char {c : Char} (hc : c ∉ ['[', ']', '{', '}', '\\']) {rest : List Char}
    (hstars : ∀ rest', c = '*' → rest ≠ '*' :: rest') (before : Option Char) (ts : List Token) :
    readTokens before ⟨ts, []⟩ (c :: rest) = readTokens (some c) ⟨.ofChar c :: ts, []⟩ rest := by
  simp only [List.mem_cons, List.not_mem_nil, or_false, not_or] at hc
  rw [readTokens.eq_6 before _ c rest (fun rest' h h' => hstars rest' h h') hc.2.2.2.2 hc.1]
  simp only [if_neg hc.2.2.1, if_neg hc.2.2.2.1, Token.ofChar]
  split
  · subst c
    rfl
  · split
    · rfl
    · split
      · subst c
        rfl
      · rfl

/-- A star that no second one follows in its segment is followed by none. -/
lemma not_star_append {segment rest : List Char} (hrest : EndsSegment rest) {c : Char}
    (hstars : ¬ ∃ more, c = '*' ∧ segment = '*' :: more) :
    ∀ rest', c = '*' → segment ++ rest ≠ '*' :: rest' := by
  rintro rest' rfl h
  rcases segment with _ | ⟨x, segment⟩
  · rcases hrest with rfl | hrest <;> simp_all
  · simp_all

/-- Inside a segment two stars are only two stars. -/
lemma exists_readTokens_inside (before : Option Char) (ts : List Token)
    {segment rest : List Char} (hsimple : IsSimple segment) (hslash : '/' ∉ segment)
    (hrest : EndsSegment rest) (hts : ts ≠ []) (hbefore : before ≠ some '/') :
    ∃ b, readTokens before ⟨ts, []⟩ (segment ++ rest) =
      readTokens b ⟨(segment.map .ofChar).reverse ++ ts, []⟩ rest := by
  induction h : segment.length using Nat.strongRecOn generalizing segment before ts with
  | ind k ih =>
    subst h
    cases segment with
    | nil => exact ⟨before, rfl⟩
    | cons c segment =>
      rw [isSimple_cons_iff] at hsimple
      rw [List.mem_cons, not_or] at hslash
      by_cases hstars : ∃ more, c = '*' ∧ segment = '*' :: more
      · obtain ⟨more, rfl, rfl⟩ := hstars
        have htwo : readTokens before ⟨ts, []⟩ ('*' :: '*' :: (more ++ rest)) =
            readTokens (some '*') ⟨.star :: .star :: ts, []⟩ (more ++ rest) := by
          rw [readTokens]
          unfold readDoubleStar
          simp [hts, hbefore, Draft.push]
        rw [isSimple_cons_iff] at hsimple
        rw [List.mem_cons, not_or] at hslash
        obtain ⟨b, hb⟩ := ih _ (by simp only [List.length_cons]; omega) (some '*')
          (.star :: .star :: ts) hsimple.2.2 hslash.2.2 (by simp) (by simp) rfl
        refine ⟨b, ?_⟩
        rw [List.cons_append, List.cons_append, htwo, hb]
        simp [Token.ofChar]
      · obtain ⟨b, hb⟩ := ih _ (by simp) (some c) (.ofChar c :: ts) hsimple.2 hslash.2
          (by simp) (by simpa using Ne.symm hslash.1) rfl
        refine ⟨b, ?_⟩
        rw [List.cons_append, readTokens_char hsimple.1 (not_star_append hrest hstars), hb]
        simp

/-- A segment other than `**` is read one character at a time. -/
lemma exists_parse_segment {segment rest : List Char} (hsimple : IsSimple segment)
    (hslash : '/' ∉ segment) (hne : segment ≠ []) (hdirs : segment ≠ ['*', '*'])
    (hrest : EndsSegment rest) :
    ∃ b, parse (segment ++ rest) = readTokens b ⟨(segment.map .ofChar).reverse, []⟩ rest := by
  obtain ⟨c, segment, rfl⟩ := List.exists_cons_of_ne_nil hne
  rw [isSimple_cons_iff] at hsimple
  rw [List.mem_cons, not_or] at hslash
  by_cases hstars : ∃ more, c = '*' ∧ segment = '*' :: more
  · obtain ⟨more, rfl, rfl⟩ := hstars
    obtain ⟨x, more, rfl⟩ := List.exists_cons_of_ne_nil (show more ≠ [] by simpa using hdirs)
    rw [isSimple_cons_iff] at hsimple
    rw [List.mem_cons, not_or] at hslash
    have htwo : parse ('*' :: '*' :: (x :: more ++ rest)) =
        readTokens (some '*') ⟨[.star, .star], []⟩ (x :: more ++ rest) := by
      have hx : x ≠ '/' := by grind
      rw [parse, readTokens]
      unfold readDoubleStar
      grind [Draft.push]
    obtain ⟨b, hb⟩ := exists_readTokens_inside (some '*') [.star, .star]
      hsimple.2.2 hslash.2.2 hrest (by simp) (by simp)
    refine ⟨b, ?_⟩
    rw [List.cons_append, List.cons_append, htwo, hb]
    simp [Token.ofChar]
  · obtain ⟨b, hb⟩ := exists_readTokens_inside (some c) [.ofChar c] hsimple.2
      hslash.2 hrest (by simp) (by simpa using Ne.symm hslash.1)
    refine ⟨b, ?_⟩
    rw [List.cons_append, parse, readTokens_char hsimple.1 (not_star_append hrest hstars), hb]
    simp

/-- The tokens of a segment other than `**`, read alone. -/
lemma parse_segment {segment : List Char} (hsimple : IsSimple segment) (hslash : '/' ∉ segment)
    (hne : segment ≠ []) (hdirs : segment ≠ ['*', '*']) :
    parse segment = .ok (segment.map .ofChar) := by
  obtain ⟨b, hb⟩ := exists_parse_segment hsimple hslash hne hdirs (.inl rfl)
  rw [List.append_nil] at hb
  rw [hb, readTokens]
  simp [Draft.finish]

/-- The tokens of a segment other than `**`, with others behind it. -/
lemma parse_segment_append {segment : List Char} (hsimple : IsSimple segment)
    (hslash : '/' ∉ segment) (hne : segment ≠ []) (hdirs : segment ≠ ['*', '*']) (cs : List Char) :
    parse (segment ++ '/' :: cs) =
      readTokens (some '/') ⟨.literal '/' :: (segment.map .ofChar).reverse, []⟩ cs := by
  obtain ⟨b, hb⟩ :=
    exists_parse_segment hsimple hslash hne hdirs (.inr rfl : EndsSegment ('/' :: cs))
  rw [hb, readTokens_char (by decide) (by simp)]
  rfl

/-! ## Alignment -/

/-- A segment, read as a glob of its own, matches one component. -/
def MatchesName (segment : List Char) (name : Bytes) : Prop :=
  ∃ g, parse segment = .ok g ∧ isMatch g name = true

/-- The components of a path stand against the segments of a glob, each against one that `covers`
it. A segment `**` has any number of components against it, and at least one where it is the last
segment; any other segment has one, which it matches. -/
inductive Aligned (covers : List Char → Bytes → Prop) : List (List Char) → List Bytes → Prop
  | nil : Aligned covers [] []
  | name {segment : List Char} {n : Bytes} {segments : List (List Char)} {names : List Bytes} :
      segment ≠ ['*', '*'] → MatchesName segment n → covers segment n →
      Aligned covers segments names → Aligned covers (segment :: segments) (n :: names)
  | more {n : Bytes} {segments : List (List Char)} {names : List Bytes} :
      covers ['*', '*'] n → Aligned covers (['*', '*'] :: segments) names →
      Aligned covers (['*', '*'] :: segments) (n :: names)
  | skip {segments : List (List Char)} {names : List Bytes} :
      segments ≠ [] → Aligned covers segments names → Aligned covers (['*', '*'] :: segments) names
  | last {n : Bytes} : covers ['*', '*'] n → Aligned covers [['*', '*']] [n]

namespace Aligned

variable {covers covers' : List Char → Bytes → Prop} {segments : List (List Char)}
  {names : List Bytes}

/-- Every component stands against a segment. -/
lemma exists_covers (h : Aligned covers segments names) :
    ∀ n ∈ names, ∃ s ∈ segments, covers s n ∧ (s = ['*', '*'] ∨ MatchesName s n) := by
  induction h with
  | nil => simp
  | name _ hmatch hcovers _ ih => grind
  | more hcovers _ ih => grind
  | skip _ _ ih => grind
  | last hcovers => grind

/-- What covers a component may be replaced where the two match. -/
lemma imp (h : Aligned covers segments names)
    (himp : ∀ s ∈ segments, ∀ n ∈ names, s = ['*', '*'] ∨ MatchesName s n →
      covers s n → covers' s n) :
    Aligned covers' segments names := by
  induction h with
  | nil => exact .nil
  | name hdirs hmatch hcovers _ ih =>
    exact .name hdirs hmatch (himp _ (by simp) _ (by simp) (.inr hmatch) hcovers)
      (ih fun s hs n hn => himp s (by simp [hs]) n (by simp [hn]))
  | more hcovers _ ih =>
    exact .more (himp _ (by simp) _ (by simp) (.inl rfl) hcovers)
      (ih fun s hs n hn => himp s hs n (by simp [hn]))
  | skip hne _ ih => exact .skip hne (ih fun s hs n hn => himp s (by simp [hs]) n hn)
  | last hcovers => exact .last (himp _ (by simp) _ (by simp) (.inl rfl) hcovers)

lemma ne_nil (h : Aligned covers segments names) (hne : segments ≠ []) : names ≠ [] := by
  induction h with
  | nil => exact absurd rfl hne
  | skip hne' _ ih => exact ih hne'
  | _ => simp

/-- A segment `**` that is not the last one takes some components in front. -/
lemma dirs_iff (hne : segments ≠ []) :
    Aligned (fun _ _ => True) (['*', '*'] :: segments) names ↔
      ∃ back, back <:+ names ∧ Aligned (fun _ _ => True) segments back := by
  constructor
  · intro h
    generalize hs : ['*', '*'] :: segments = all at h
    induction h with
    | nil => cases hs
    | name hdirs => simp_all
    | more _ _ ih =>
      obtain ⟨back, hback, h⟩ := ih hs
      exact ⟨back, hback.trans (List.suffix_cons _ _), h⟩
    | skip _ h =>
      cases hs
      exact ⟨_, List.suffix_refl _, h⟩
    | last => simp_all
  · rintro ⟨back, ⟨front, rfl⟩, h⟩
    induction front with
    | nil => exact .skip hne h
    | cons n front ih => exact .more trivial ih

lemma last_iff : Aligned (fun _ _ => True) [['*', '*']] names ↔ names ≠ [] := by
  refine ⟨fun h => h.ne_nil (by simp), fun h => ?_⟩
  induction names with
  | nil => exact absurd rfl h
  | cons n names ih =>
    cases names with
    | nil => exact .last trivial
    | cons next names => exact .more trivial (ih (by simp))

lemma name_iff {segment : List Char} (hdirs : segment ≠ ['*', '*']) {n : Bytes} :
    Aligned covers (segment :: segments) (n :: names) ↔
      MatchesName segment n ∧ covers segment n ∧ Aligned covers segments names := by
  constructor
  · intro h
    cases h with
    | name _ hmatch hcovers h => exact ⟨hmatch, hcovers, h⟩
    | _ => exact absurd rfl hdirs
  · rintro ⟨hmatch, hcovers, h⟩
    exact .name hdirs hmatch hcovers h

end Aligned

lemma getLast?_joinWith {segments : List (List Char)} (hne : segments ≠ [])
    (h : ∀ s ∈ segments, s ≠ [] ∧ '/' ∉ s) :
    joinWith '/' segments ≠ [] ∧ (joinWith '/' segments).getLast? ≠ some '/' := by
  induction segments with
  | nil => exact absurd rfl hne
  | cons s segments ih =>
    simp only [List.mem_cons, forall_eq_or_imp] at h
    cases segments with
    | nil => exact ⟨h.1.1, fun hlast => h.1.2 (List.mem_of_mem_getLast? hlast)⟩
    | cons next segments =>
      obtain ⟨hne', hlast⟩ := ih (by simp) h.2
      rw [joinWith]
      refine ⟨by simp, ?_⟩
      rwa [List.getLast?_append_of_ne_nil _ (by simp), List.getLast?_cons_of_ne_nil hne']

/-! ## Globs without choices, classes and escapes -/

section Segments

variable {s : List Char}

lemma isInner_of_mem_map (hslash : '/' ∉ s) : ∀ t ∈ s.map Token.ofChar, t.IsInner := by
  intro t ht
  obtain ⟨c, hc, rfl⟩ := List.mem_map.1 ht
  exact isInner_ofChar (ne_of_mem_of_not_mem hc hslash)

lemma map_ofChar_append_ne (hne : s ≠ []) (hslash : '/' ∉ s) (more : List Token) :
    s.map Token.ofChar ++ more ≠ [.leadingDirs] := by
  intro h
  obtain ⟨c, s, rfl⟩ := List.exists_cons_of_ne_nil hne
  obtain ⟨hc, -⟩ := List.cons.inj h
  have hinner := isInner_of_mem_map hslash _ List.mem_cons_self
  rw [hc] at hinner
  exact hinner

lemma matchesName_iff (hsimple : IsSimple s) (hslash : '/' ∉ s) (hne : s ≠ [])
    (hdirs : s ≠ ['*', '*']) {n : Bytes} :
    MatchesName s n ↔ [] ∈ rests (s.map .ofChar) [n] := by
  have hsingle := map_ofChar_append_ne hne hslash []
  rw [List.append_nil] at hsingle
  simp [MatchesName, parse_segment hsimple hslash hne hdirs, isMatch_iff hsingle]

/-- A single segment other than `**` is aligned with the single component it matches. -/
lemma isMatch_segment_iff (hsimple : IsSimple s) (hslash : '/' ∉ s) (hne : s ≠ [])
    (hdirs : s ≠ ['*', '*']) {names : List Bytes} (hnames : names ≠ [])
    (hslashes : ∀ n ∈ names, Path.slash ∉ n) :
    isMatch (s.map .ofChar) (joinWith Path.slash names) = true ↔
      Aligned (fun _ _ => True) [s] names := by
  have hsingle := map_ofChar_append_ne hne hslash []
  rw [List.append_nil] at hsingle
  have hinner := isInner_of_mem_map hslash
  rw [isMatch_iff hsingle]
  obtain ⟨n, names, rfl⟩ := List.exists_cons_of_ne_nil hnames
  rw [Aligned.name_iff hdirs, matchesName_iff hsimple hslash hne hdirs]
  cases names with
  | nil => simp [joinWith, Aligned.nil]
  | cons next names =>
    refine iff_of_false (nil_not_mem_rests_inner hinner (hslashes n (by simp))) ?_
    rintro ⟨-, -, h⟩
    cases h

/-- A segment other than `**` takes the first component, and a separator stands behind it. -/
lemma isMatch_segment_append_iff (hsimple : IsSimple s) (hslash : '/' ∉ s) (hne : s ≠ [])
    (hdirs : s ≠ ['*', '*']) {segments : List (List Char)} (hsegments : segments ≠ [])
    {behind : List Token} (hbehind : IsBehindSlash behind)
    (hrests : ∀ names, names ≠ [] → (∀ n ∈ names, Path.slash ∉ n) →
      ([] ∈ rests behind [Path.slash :: joinWith Path.slash names] ↔
        Aligned (fun _ _ => True) segments names))
    {names : List Bytes} (hnames : names ≠ []) (hslashes : ∀ n ∈ names, Path.slash ∉ n) :
    isMatch (s.map .ofChar ++ behind) (joinWith Path.slash names) = true ↔
      Aligned (fun _ _ => True) (s :: segments) names := by
  have hinner := isInner_of_mem_map hslash
  rw [isMatch_iff (map_ofChar_append_ne hne hslash behind)]
  obtain ⟨n, names, rfl⟩ := List.exists_cons_of_ne_nil hnames
  rw [List.forall_mem_cons] at hslashes
  rw [Aligned.name_iff hdirs, matchesName_iff hsimple hslash hne hdirs]
  cases names with
  | nil =>
    refine iff_of_false (nil_not_mem_rests_inner_append hinner hbehind hslashes.1) ?_
    rintro ⟨-, -, h⟩
    exact h.ne_nil hsegments rfl
  | cons next names =>
    rw [joinWith, nil_mem_rests_inner_append hinner hbehind hslashes.1,
      hrests _ (List.cons_ne_nil _ _) hslashes.2]
    simp

/-- Without choices, classes and escapes, a glob matches what can be aligned with its segments. -/
theorem isMatch_iff_aligned {segments : List (List Char)} (hne : segments ≠ [])
    (h : ∀ s ∈ segments, IsSimple s ∧ s ≠ [] ∧ '/' ∉ s) :
    ∃ g, parse (joinWith '/' segments) = .ok g ∧
      ∀ names, names ≠ [] → (∀ n ∈ names, Path.slash ∉ n) →
        (isMatch g (joinWith Path.slash names) = true ↔
          Aligned (fun _ _ => True) segments names) := by
  induction segments with
  | nil => exact absurd rfl hne
  | cons s segments ih =>
    rw [List.forall_mem_cons] at h
    obtain ⟨⟨hsimple, hsne, hslash⟩, h⟩ := h
    by_cases hlast : segments = []
    · subst hlast
      by_cases hdirs : s = ['*', '*']
      · subst hdirs
        refine ⟨_, parse_stars, fun names hnames _ => ?_⟩
        simp [isMatch, Aligned.last_iff, hnames]
      · exact ⟨_, parse_segment hsimple hslash hsne hdirs, fun names =>
          isMatch_segment_iff hsimple hslash hsne hdirs⟩
    · obtain ⟨g, hg, hmatch⟩ := ih hlast h
      obtain ⟨next, segments, rfl⟩ := List.exists_cons_of_ne_nil hlast
      obtain ⟨hcs, hend⟩ := getLast?_joinWith hlast fun t ht => (h t ht).2
      rw [joinWith]
      by_cases hdirs : s = ['*', '*']
      · subst hdirs
        obtain ⟨alone, _, hbelow⟩ := exists_readsBelow hcs hend hg []
        refine ⟨alone, (parse_dirs _).trans hbelow.readTokens_leading,
          fun names hnames hslashes => ?_⟩
        rw [hbelow.isMatch_iff, Aligned.dirs_iff hlast]
        simp only [mem_afterDirs_joinWith_iff hnames hslashes]
        constructor
        · rintro ⟨_, ⟨back, hback, hsuffix, rfl⟩, hr⟩
          exact ⟨back, hsuffix, (hmatch _ hback fun n hn => hslashes n (hsuffix.subset hn)).1 hr⟩
        · rintro ⟨back, hsuffix, hr⟩
          have hback := hr.ne_nil hlast
          exact ⟨_, ⟨back, hback, hsuffix, rfl⟩,
            (hmatch _ hback fun n hn => hslashes n (hsuffix.subset hn)).2 hr⟩
      · obtain ⟨behind, hread, hbehind, hrests⟩ :=
          exists_readTokens_behind hcs hend hg (s.map Token.ofChar).reverse
        rw [List.reverse_reverse] at hread
        refine ⟨s.map .ofChar ++ behind, ?_, fun names =>
          isMatch_segment_append_iff hsimple hslash hsne hdirs hlast hbehind
            fun names hnames hslashes => (hrests _).trans (hmatch names hnames hslashes)⟩
        rw [parse_segment_append hsimple hslash hsne hdirs, hread]

end Segments

end StyleGuide.Glob
