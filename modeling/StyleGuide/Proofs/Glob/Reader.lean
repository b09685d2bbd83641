import Mathlib.Tactic.Common
import StyleGuide.Glob.Reader
import StyleGuide.Proofs.Sequence

/-!
# Reading a part of a glob

A glob that stands behind other tokens is read as it is read alone, with those tokens before it.
Only a `**` at its start looks at what stands before: alone it takes the directories in front, and
behind a separator it takes the separator too.

## Main definitions

* `Glob.Action`: what one step of reading does to the draft.
* `Glob.Draft.onto`: a draft with other tokens before its own.
* `Glob.StartsWithDirs`: the texts with a `**` segment at the start.

## Main results

* `Glob.readTokens_onto`: tokens that stand before are kept, and nothing else changes.
* `Glob.parse_behind`: a text without a `**` at its start, behind a separator.
-/

namespace StyleGuide.Glob

/-! ## One step of reading -/

/-- What one step of reading does to the draft. -/
inductive Action where
  | token (t : Token)
  | openChoice
  | nextBranch
  | closeChoice

/-- The draft behind a step. -/
def Action.run : Action → Draft → Except Error Draft
  | token t, d => .ok (d.push t)
  | openChoice, d => .ok d.openChoice
  | nextBranch, d => .ok d.nextBranch
  | closeChoice, d => d.closeChoice

/-- Reading `cs` begins with the step `a`, and goes on with `rest` behind the character `c`. -/
def Begins (cs : List Char) (a : Action) (c : Char) (rest : List Char) : Prop :=
  ∀ before d, readTokens before d cs = a.run d >>= fun d => readTokens (some c) d rest

/-- But for `**`, a step depends on the text alone. -/
lemma exists_begins {cs : List Char} (hne : cs ≠ []) (hstars : ∀ rest, cs ≠ '*' :: '*' :: rest) :
    (∃ e, ∀ before d, readTokens before d cs = .error e) ∨
      ∃ a c rest, rest.length < cs.length ∧ a ≠ .token .leadingDirs ∧ Begins cs a c rest := by
  obtain ⟨c, rest, rfl⟩ := List.exists_cons_of_ne_nil hne
  by_cases hescape : c = '\\'
  · subst hescape
    cases rest with
    | nil => exact .inl ⟨.danglingEscape, fun _ _ => by rw [readTokens]⟩
    | cons c rest =>
      exact .inr ⟨.token (.literal c), c, rest,
        by simp only [List.length_cons]; omega, by simp, fun _ _ => by
        rw [readTokens]; rfl⟩
  by_cases hclass : c = '['
  · subst hclass
    cases hread : readClass rest with
    | error e =>
      refine .inl ⟨e, fun _ _ => ?_⟩
      rw [readTokens]
      split <;> simp_all
    | ok r =>
      obtain ⟨t, after⟩ := r
      have hlen := readClass_length hread
      refine .inr ⟨.token t, ']', after, by simp; omega, ?_, fun _ _ => ?_⟩
      · unfold readClass at hread
        grind
      · rw [readTokens]
        split
        · simp_all
        next hread' =>
          rw [hread] at hread'
          cases hread'
          rfl
  have hstep : ∀ before d, readTokens before d (c :: rest) = _ := fun before d =>
    readTokens.eq_6 before d c rest (fun rest' hc hrest => hstars rest' (by rw [hc, hrest]))
      hescape hclass
  refine .inr ⟨if c = '?' then .token .any else if c = '*' then .token .star
    else if c = '\x7b' then .openChoice else if c = ',' then .nextBranch
    else if c = '\x7d' then .closeChoice else .token (.literal c), c, rest, by simp, ?_, ?_⟩
  · repeat' split
    all_goals simp
  · intro before d
    rw [hstep]
    repeat' split
    all_goals simp_all [Action.run, bind, Except.bind]

/-! ## Tokens before a draft -/

namespace Draft

/-- Open choices, the outermost of which has more tokens before it. -/
def choicesOnto (below : List Token) : List OpenChoice → List OpenChoice
  | [] => []
  | [c] => [{ c with before := c.before ++ below }]
  | c :: next :: outer => c :: choicesOnto below (next :: outer)

/-- The draft with the tokens `below`, last first, before all of its own. -/
def onto (below : List Token) : Draft → Draft
  | ⟨tokens, []⟩ => ⟨tokens ++ below, []⟩
  | ⟨tokens, c :: outer⟩ => ⟨tokens, choicesOnto below (c :: outer)⟩

/-- Enough has been read that a `**` does not look at what stands before all of it. What has been
read is not a leading `**` alone. -/
def Settled (d : Draft) : Prop :=
  d.choices = [] → d.tokens ≠ [] ∧ d.tokens ≠ [.leadingDirs]

variable {d : Draft} {t : Token} (below : List Token)

@[simp] lemma push_onto : (d.onto below).push t = (d.push t).onto below := by
  obtain ⟨tokens, _ | ⟨c, outer⟩⟩ := d <;> rfl

lemma openChoice_onto : (d.onto below).openChoice = d.openChoice.onto below := by
  obtain ⟨tokens, _ | ⟨c, outer⟩⟩ := d <;> rfl

lemma nextBranch_onto : (d.onto below).nextBranch = d.nextBranch.onto below := by
  obtain ⟨tokens, _ | ⟨c, _ | ⟨next, outer⟩⟩⟩ := d <;> rfl

lemma closeChoice_onto : (d.onto below).closeChoice = d.closeChoice.map (onto below) := by
  obtain ⟨tokens, _ | ⟨c, _ | ⟨next, outer⟩⟩⟩ := d <;> rfl

lemma finish_onto : (d.onto below).finish = d.finish.map (below.reverse ++ ·) := by
  obtain ⟨tokens, _ | ⟨c, _ | ⟨next, outer⟩⟩⟩ := d
  · simp [onto, finish, Except.map]
  · rfl
  · rfl

lemma Settled.push (h : d.Settled) (t : Token) : (d.push t).Settled := by
  intro hchoices
  have := h hchoices
  simp_all [Draft.push]

lemma settled_openChoice (d : Draft) : d.openChoice.Settled := by
  intro h
  cases h

lemma Settled.nextBranch (h : d.Settled) : d.nextBranch.Settled := by
  unfold Draft.nextBranch
  split
  · exact h.push _
  · intro h'
    cases h'

lemma settled_of_closeChoice {d' : Draft} (h : d.closeChoice = .ok d') : d'.Settled := by
  unfold closeChoice at h
  split at h
  · cases h
  · cases h
    intro _
    simp

lemma Settled.absorb (h : d.Settled) (ht : t ≠ .leadingDirs) : (d.absorb t).Settled := by
  intro hchoices
  obtain ⟨tokens, choices⟩ := d
  rcases tokens with _ | ⟨_ | _ | _ | _ | _ | _ | _ | _, _⟩ <;> simp_all [Draft.absorb, Settled]

lemma absorb_onto (h : d.Settled) : (d.onto below).absorb t = (d.absorb t).onto below := by
  obtain ⟨tokens, _ | ⟨c, outer⟩⟩ := d
  · obtain ⟨hne, -⟩ := h rfl
    rcases tokens with _ | ⟨_ | _ | _ | _ | _ | _ | _ | _, _⟩ <;> first | rfl | exact absurd rfl hne
  · rcases tokens with _ | ⟨_ | _ | _ | _ | _ | _ | _ | _, _⟩ <;> rfl

lemma isEmpty_choices_onto : (d.onto below).choices.isEmpty = d.choices.isEmpty := by
  obtain ⟨tokens, _ | ⟨c, _ | ⟨next, outer⟩⟩⟩ := d <;> rfl

lemma isEmpty_tokens_onto (h : d.Settled) : (d.onto below).tokens.isEmpty = d.tokens.isEmpty := by
  obtain ⟨tokens, _ | ⟨c, outer⟩⟩ := d
  · obtain ⟨hne, -⟩ := h rfl
    cases tokens <;> simp_all [onto]
  · rfl

end Draft

lemma Action.run_onto (a : Action) (d : Draft) (below : List Token) :
    a.run (d.onto below) = (a.run d).map (Draft.onto below) := by
  cases a with
  | token t => exact congrArg Except.ok (Draft.push_onto below)
  | openChoice => exact congrArg Except.ok (Draft.openChoice_onto below)
  | nextBranch => exact congrArg Except.ok (Draft.nextBranch_onto below)
  | closeChoice => exact Draft.closeChoice_onto below

lemma Action.settled_run {a : Action} {d d' : Draft} (hd : d.Settled) (h : a.run d = .ok d') :
    d'.Settled := by
  cases a with
  | token t =>
    cases h
    exact hd.push t
  | openChoice =>
    cases h
    exact d.settled_openChoice
  | nextBranch =>
    cases h
    exact hd.nextBranch
  | closeChoice => exact Draft.settled_of_closeChoice h

section DoubleStar

variable {before : Option Char} {d : Draft} {cs : List Char}

lemma readDoubleStar_onto (hd : d.Settled) (below : List Token) :
    readDoubleStar before (d.onto below) cs =
      ((readDoubleStar before d cs).1.onto below, (readDoubleStar before d cs).2) := by
  unfold readDoubleStar
  simp only [Draft.isEmpty_choices_onto, Draft.isEmpty_tokens_onto below hd,
    Draft.absorb_onto below hd, Draft.push_onto]
  repeat' split
  all_goals rfl

lemma settled_readDoubleStar (hd : d.Settled) : (readDoubleStar before d cs).1.Settled := by
  unfold readDoubleStar
  simp only
  repeat' split
  all_goals first
    | exact hd.push _
    | exact (hd.push _).push _
    | exact hd.absorb (by simp)

end DoubleStar

lemma readTokens_stars (before : Option Char) (d : Draft) :
    readTokens before d ['*', '*'] = (readDoubleStar before d []).1.finish := by
  have hrest : (readDoubleStar before d []).2.2 = [] :=
    List.eq_nil_of_length_eq_zero (Nat.le_zero.1 (readDoubleStar_length before d []))
  rw [readTokens, hrest, readTokens]

/-! ## Reading on -/

/-- Tokens before a settled draft are kept, and nothing else changes. -/
theorem readTokens_onto {before : Option Char} {d : Draft} {cs : List Char} (hd : d.Settled)
    (below : List Token) :
    readTokens before (d.onto below) cs = (readTokens before d cs).map (below.reverse ++ ·) := by
  induction h : cs.length using Nat.strongRecOn generalizing before d cs with
  | ind k ih =>
    subst h
    by_cases hstars : ∃ rest, cs = '*' :: '*' :: rest
    · obtain ⟨rest, rfl⟩ := hstars
      have hlen := readDoubleStar_length before d rest
      rw [readTokens, readTokens, readDoubleStar_onto hd]
      exact ih _ (by simp; omega) (settled_readDoubleStar hd) rfl
    by_cases hne : cs = []
    · subst hne
      rw [readTokens, readTokens, Draft.finish_onto]
    rcases exists_begins hne (by simpa using hstars) with ⟨e, he⟩ | ⟨a, c, rest, hlt, -, hbegins⟩
    · rw [he, he]
      rfl
    · rw [hbegins, hbegins, Action.run_onto]
      cases ha : a.run d with
      | error e => rfl
      | ok d' => exact ih _ hlt (Action.settled_run hd ha) rfl

/-- What is read onto a settled draft is something, and not a leading `**` alone. -/
theorem ne_of_settled {before : Option Char} {d : Draft} {cs : List Char} {g : Glob}
    (hd : d.Settled) (h : readTokens before d cs = .ok g) : g ≠ [] ∧ g ≠ [.leadingDirs] := by
  induction hk : cs.length using Nat.strongRecOn generalizing before d cs with
  | ind k ih =>
    subst hk
    by_cases hstars : ∃ rest, cs = '*' :: '*' :: rest
    · obtain ⟨rest, rfl⟩ := hstars
      have hlen := readDoubleStar_length before d rest
      rw [readTokens] at h
      exact ih _ (by simp; omega) (settled_readDoubleStar hd) h rfl
    by_cases hne : cs = []
    · subst hne
      rw [readTokens, Draft.finish] at h
      split_ifs at h with hchoices
      cases h
      have := hd (List.isEmpty_iff.1 hchoices)
      simpa [List.reverse_eq_iff] using this
    rcases exists_begins hne (by simpa using hstars) with ⟨e, he⟩ | ⟨a, c, rest, hlt, -, hbegins⟩
    · rw [he] at h
      cases h
    · rw [hbegins] at h
      obtain ⟨d', ha, hrest⟩ := bind_eq_ok_iff.1 h
      exact ih _ hlt (Action.settled_run hd ha) hrest rfl

/-! ## Reading behind a separator -/

/-- The text starts with a segment `**`. -/
def StartsWithDirs (cs : List Char) : Prop :=
  cs = ['*', '*'] ∨ ∃ rest, cs = '*' :: '*' :: '/' :: rest

/-- A text without a `**` at its start is read behind other tokens as it is read alone. -/
theorem parse_behind {cs : List Char} (hne : cs ≠ []) (hdirs : ¬ StartsWithDirs cs)
    (below : List Token) :
    readTokens (some '/') ⟨below, []⟩ cs = (parse cs).map (below.reverse ++ ·) ∧
      ∀ g, parse cs = .ok g → g ≠ [] ∧ g ≠ [.leadingDirs] := by
  by_cases hstars : ∃ rest, cs = '*' :: '*' :: rest
  · obtain ⟨rest, rfl⟩ := hstars
    have htwo : Draft.Settled ⟨[.star, .star], []⟩ := by simp [Draft.Settled]
    -- Neither at the end nor before a separator, these are two stars.
    have halone : parse ('*' :: '*' :: rest) = readTokens (some '*') ⟨[.star, .star], []⟩ rest := by
      rw [parse, readTokens]
      unfold readDoubleStar
      rcases rest with _ | ⟨c, rest⟩ <;> grind [StartsWithDirs, Draft.push]
    have hbehind : readTokens (some '/') ⟨below, []⟩ ('*' :: '*' :: rest) =
        readTokens (some '*') (Draft.onto below ⟨[.star, .star], []⟩) rest := by
      rw [readTokens]
      unfold readDoubleStar
      rcases rest with _ | ⟨c, rest⟩ <;> grind [StartsWithDirs, Draft.push, Draft.onto]
    rw [halone, hbehind]
    exact ⟨readTokens_onto htwo below, fun g hg => ne_of_settled htwo hg⟩
  rcases exists_begins hne (by simpa using hstars) with ⟨e, he⟩ | ⟨a, c, rest, -, ha, hbegins⟩
  · rw [parse, he, he]
    exact ⟨rfl, fun g hg => by cases hg⟩
  · have honto : (⟨below, []⟩ : Draft) = Draft.onto below ⟨[], []⟩ := rfl
    rw [parse, hbegins, hbegins, honto, Action.run_onto]
    cases hrun : a.run ⟨[], []⟩ with
    | error e => exact ⟨rfl, fun g hg => by cases hg⟩
    | ok d =>
      have hd : d.Settled := by
        cases a with
        | token t =>
          cases hrun
          simp_all [Draft.Settled, Draft.push]
        | openChoice =>
          cases hrun
          exact Draft.settled_openChoice _
        | nextBranch =>
          cases hrun
          simp [Draft.Settled, Draft.nextBranch, Draft.push]
        | closeChoice => cases hrun
      exact ⟨readTokens_onto hd below, fun g hg => ne_of_settled hd hg⟩

end StyleGuide.Glob
