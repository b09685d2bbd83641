import StyleGuide.Proofs.Props.Lines

/-!
# Destructured parameters

The default values of a source are read from its first destructured parameter. In a text whose
brackets match each parameter that starts in the text also ends there, so whether there is one does
not depend on what stands behind the text.

## Main definitions

* `Interface.IsParameter`: the texts that are destructured parameters.
* `Bracket.Nested`: the texts whose brackets match.
* `Interface.IsSettled`: the texts that no parameter leads out of.

## Main results

* `Interface.parameter?_eq_some_iff`: what is read at the start of a text is a parameter there.
* `Interface.isSettled_of_nested`: no parameter leads out of a text whose brackets match.
* `Interface.firstMatch_append`: the first parameter of two texts is that of the first one of them
  that has one.
-/

namespace StyleGuide

/-- What stands in front of the first `x` stands in front of any other one. -/
lemma exists_append_of_append_cons_eq {α : Type} {x : α} {xs ys zs ws : List α}
    (h : xs ++ x :: ys = zs ++ ws) (hx : x ∉ zs) : ∃ more, xs = zs ++ more := by
  rcases List.append_eq_append_iff.1 h with ⟨more, rfl, hmore⟩ | ⟨more, rfl, -⟩
  · cases more with
    | nil => exact ⟨[], by simp⟩
    | cons y more =>
      obtain ⟨rfl, -⟩ := List.cons.inj hmore
      exact absurd (by simp) hx
  · exact ⟨more, rfl⟩

/-- What starts with `x` also does so where it is cut behind an `x`. -/
lemma exists_cons_of_append_cons_eq {α : Type} {x : α} {xs ys zs : List α}
    (h : xs ++ x :: ys = x :: zs) : ∃ ws, xs ++ [x] = x :: ws := by
  cases xs with
  | nil => exact ⟨[], rfl⟩
  | cons y xs =>
    obtain ⟨rfl, -⟩ := List.cons.inj h
    exact ⟨xs ++ [y], rfl⟩

namespace Bracket

/-! ## Texts whose brackets match -/

/-- The brackets that belong together. -/
def pairs : List (Char × Char) := [('(', ')'), ('[', ']'), ('\x7b', '\x7d'), ('<', '>')]

/-- The texts whose brackets match; the `>` of an arrow is none. -/
inductive Nested : List Char → Prop
  | nil : Nested []
  | plain {c : Char} {cs : List Char} : isBracket c = false → Nested cs → Nested (c :: cs)
  | arrow {cs : List Char} : Nested cs → Nested ('=' :: '>' :: cs)
  | wrap {opening closing : Char} {inside behind : List Char} : (opening, closing) ∈ pairs →
      Nested inside → Nested behind → Nested (opening :: (inside ++ closing :: behind))

lemma nested_of_forall {cs : List Char} (h : ∀ c ∈ cs, isBracket c = false) : Nested cs := by
  induction cs with
  | nil => exact .nil
  | cons c cs ih =>
    exact .plain (h c List.mem_cons_self) (ih fun x hx => h x (List.mem_cons_of_mem _ hx))

lemma isOpening_of_mem_pairs {opening closing : Char} (h : (opening, closing) ∈ pairs) :
    isOpening opening = true ∧ isOpening closing = false := by
  simp only [pairs, List.mem_cons, Prod.mk.injEq, List.not_mem_nil, or_false] at h
  rcases h with ⟨rfl, rfl⟩ | ⟨rfl, rfl⟩ | ⟨rfl, rfl⟩ | ⟨rfl, rfl⟩ <;> decide

lemma eq_of_mem_pairs {opening c d : Char} (hc : (opening, c) ∈ pairs) (hd : (opening, d) ∈ pairs) :
    c = d := by
  simp only [pairs, List.mem_cons, Prod.mk.injEq, List.not_mem_nil, or_false] at hc hd
  rcases hc with ⟨rfl, rfl⟩ | ⟨rfl, rfl⟩ | ⟨rfl, rfl⟩ | ⟨rfl, rfl⟩ <;> simp_all

/-- Behind an opening bracket comes the bracket that closes it, and brackets match in between. -/
theorem Nested.exists_closing {cs : List Char} (h : Nested cs) {opening closing : Char}
    (hpair : (opening, closing) ∈ pairs) (front back : List Char)
    (hcs : cs = front ++ opening :: back) :
    ∃ inside behind, back = inside ++ closing :: behind ∧ Nested inside := by
  obtain ⟨hopen, -⟩ := isOpening_of_mem_pairs hpair
  induction h generalizing front back with
  | nil => simp at hcs
  | plain hplain _ ih =>
    cases front with
    | nil =>
      obtain ⟨rfl, -⟩ := List.cons.inj hcs
      simp [isBracket, hopen] at hplain
    | cons x front => exact ih front back (List.cons.inj hcs).2
  | arrow _ ih =>
    cases front with
    | nil =>
      obtain ⟨rfl, -⟩ := List.cons.inj hcs
      cases hopen
    | cons x front =>
      obtain ⟨-, hcs⟩ := List.cons.inj hcs
      cases front with
      | nil =>
        obtain ⟨rfl, -⟩ := List.cons.inj hcs
        cases hopen
      | cons y front => exact ih front back (List.cons.inj hcs).2
  | wrap hpair' hinside hbehind ihinside ihbehind =>
    obtain ⟨-, hclosing⟩ := isOpening_of_mem_pairs hpair'
    cases front with
    | nil =>
      obtain ⟨rfl, rfl⟩ := List.cons.inj hcs
      cases eq_of_mem_pairs hpair hpair'
      exact ⟨_, _, rfl, hinside⟩
    | cons x front =>
      obtain ⟨-, hcs⟩ := List.cons.inj hcs
      -- The bracket stands in one of the two texts.
      rcases List.append_eq_append_iff.1 hcs with ⟨more, rfl, hmore⟩ | ⟨more, rfl, hmore⟩
      · cases more with
        | nil =>
          obtain ⟨rfl, -⟩ := List.cons.inj hmore
          rw [hopen] at hclosing
          cases hclosing
        | cons y more => exact ihbehind more back (List.cons.inj hmore).2
      · cases more with
        | nil =>
          obtain ⟨rfl, -⟩ := List.cons.inj hmore
          rw [hopen] at hclosing
          cases hclosing
        | cons y more =>
          obtain ⟨rfl, rfl⟩ := List.cons.inj hmore
          obtain ⟨inside, behind, rfl, hnested⟩ := ihinside front more rfl
          exact ⟨inside, behind ++ _ :: _, List.append_assoc _ _ _, hnested⟩

end Bracket

namespace Interface

open StyleGuide.Bracket

/-! ## Parameters -/

lemma behind?_eq_some_iff {w : String} {cs rest : List Char} :
    behind? w cs = some rest ↔ cs = w.toList ++ rest := by
  constructor
  · intro h
    rw [behind?, Option.ite_none_right_eq_some, List.isPrefixOf_iff_prefix] at h
    obtain ⟨⟨more, rfl⟩, h⟩ := h
    rw [← String.length_toList, List.drop_left] at h
    rw [Option.some.inj h]
  · rintro rfl
    exact behind?_append w rest

/-- The type that a parameter is said to have, if any. -/
def IsGivenType (text : List Char) : Prop :=
  text = [] ∨ ∃ before name after, text = ':' :: (before ++ (name ++ after)) ∧
    (∀ b ∈ before, isBlank b = true) ∧ name ≠ [] ∧ (∀ c ∈ name, isWord c = true) ∧
      ∀ b ∈ after, isBlank b = true

/-- The text is a destructured parameter with `inner` between its braces. -/
structure IsParameter (inner text : List Char) : Prop where
  ne_nil : inner ≠ []
  notClosed : '\x7d' ∉ inner
  eq : ∃ before after given, (∀ b ∈ before, isBlank b = true) ∧
    (∀ b ∈ after, isBlank b = true) ∧ IsGivenType given ∧
      text = '(' :: (before ++ '\x7b' :: (inner ++ '\x7d' :: (after ++ given ++ [')'])))

/-- What is between the braces of the parameter at the start of a text. -/
def parameter? (cs : List Char) : Option (List Char) := (behind? "(" cs).bind destructured?

/-- The text between the braces as it is read. -/
def contents (inner : List Char) : List Char :=
  if trimLeft inner = [] then inner.getLast?.toList else trimLeft inner

variable {cs inner names rest : List Char}

/-- What stands behind the parenthesis that closes a parameter with a type. -/
def behindType? (cs : List Char) : Option (List Char) := do
  let rest ← behind? ":" cs
  let name := (trimLeft rest).takeWhile isWord
  if name = [] then none
  else behind? ")" (trimLeft ((trimLeft rest).drop name.length))

lemma takeWhile_brace (h : '\x7d' ∉ inner) (after : List Char) :
    (inner ++ '\x7d' :: after).takeWhile (· ≠ '\x7d') = inner :=
  takeWhile_append_cons_eq (fun c hc => by simpa using ne_of_mem_of_not_mem hc h) (by simp) after

/-- The braces and what stands between them are read up to the first brace that closes. -/
lemma destructured?_eq_some_iff : destructured? cs = some names ↔
    ∃ inner after, trimLeft cs = '\x7b' :: (inner ++ '\x7d' :: after) ∧ '\x7d' ∉ inner ∧
      inner ≠ [] ∧ contents inner = names ∧
        ((behindType? (trimLeft after)).isSome ∨ (behind? ")" (trimLeft after)).isSome) := by
  have heq : destructured? cs = (behind? "\x7b" (trimLeft cs)).bind fun rest =>
      (behind? "\x7d" (rest.drop (rest.takeWhile (· ≠ '\x7d')).length)).bind fun after =>
        (rest.takeWhile (· ≠ '\x7d')).getLast?.bind fun last =>
          if (behindType? (trimLeft after)).isSome ∨ (behind? ")" (trimLeft after)).isSome then
            some (if trimLeft (rest.takeWhile (· ≠ '\x7d')) = [] then [last]
              else trimLeft (rest.takeWhile (· ≠ '\x7d')))
          else none := rfl
  simp only [heq, Option.bind_eq_some_iff, behind?_eq_some_iff, Option.ite_none_right_eq_some,
    Option.some.injEq]
  constructor
  · rintro ⟨rest, hcs, after, hafter, last, hlast, hend, hnames⟩
    have hrest : rest = rest.takeWhile (· ≠ '\x7d') ++ '\x7d' :: after := by
      have hdrop := List.prefix_iff_eq_append.1 (List.takeWhile_prefix (l := rest) (· ≠ '\x7d'))
      rw [hafter] at hdrop
      exact hdrop.symm
    refine ⟨rest.takeWhile (· ≠ '\x7d'), after, ?_, ?_, ?_, ?_, hend⟩
    · rw [hcs, ← hrest]
      rfl
    · intro h
      exact absurd (List.all_eq_true.1 List.all_takeWhile _ h) (by simp)
    · intro hnil
      rw [hnil] at hlast
      cases hlast
    · rw [contents, hlast]
      exact hnames
  · rintro ⟨inner, after, hcs, hclosed, hne, rfl, hend⟩
    have htake := takeWhile_brace hclosed after
    refine ⟨inner ++ '\x7d' :: after, hcs, after, ?_, inner.getLast hne, ?_, hend, ?_⟩
    · rw [htake, List.drop_left]
      rfl
    · rw [htake, List.getLast?_eq_some_getLast hne]
    · rw [htake, contents, List.getLast?_eq_some_getLast hne]
      rfl

lemma isSome_behind?_iff {w : String} :
    (behind? w cs).isSome ↔ ∃ rest, cs = w.toList ++ rest := by
  simp only [Option.isSome_iff_exists, behind?_eq_some_iff]

lemma takeWhile_isWord_blanks {blanks : List Char} (h : ∀ b ∈ blanks, isBlank b = true)
    (back : List Char) : (blanks ++ ')' :: back).takeWhile isWord = [] := by
  cases blanks with
  | nil => rfl
  | cons b blanks =>
    have hb : ¬ isWord b = true := fun hword => by
      simpa [isBlank_eq_false_of_isWord hword] using h b List.mem_cons_self
    rw [List.cons_append, List.takeWhile_cons_of_neg hb]

/-- The name of a type ends in front of the first character that is not part of a word. -/
lemma isSome_behindType?_iff : (behindType? cs).isSome ↔
    ∃ before name after back, cs = ':' :: (before ++ (name ++ (after ++ ')' :: back))) ∧
      (∀ b ∈ before, isBlank b = true) ∧ name ≠ [] ∧ (∀ c ∈ name, isWord c = true) ∧
        ∀ b ∈ after, isBlank b = true := by
  have heq : behindType? cs = (behind? ":" cs).bind fun rest =>
      if (trimLeft rest).takeWhile isWord = [] then none
      else
        behind? ")" (trimLeft ((trimLeft rest).drop ((trimLeft rest).takeWhile isWord).length)) :=
    rfl
  simp only [heq, Option.isSome_iff_exists, Option.bind_eq_some_iff, behind?_eq_some_iff,
    Option.ite_none_left_eq_some]
  constructor
  · rintro ⟨back, rest, rfl, hname, hback⟩
    obtain ⟨before, hbefore, hrest⟩ := exists_eq_append_trimLeft rest
    obtain ⟨after, hafter, hdrop⟩ := exists_eq_append_trimLeft
      ((trimLeft rest).drop ((trimLeft rest).takeWhile isWord).length)
    have hsplit := List.prefix_iff_eq_append.1
      (List.takeWhile_prefix (l := trimLeft rest) isWord)
    refine ⟨before, _, after, back, ?_, hbefore, hname,
      fun c hc => List.all_eq_true.1 List.all_takeWhile c hc, hafter⟩
    rw [hback] at hdrop
    have hclose : ')' :: back = ")".toList ++ back := rfl
    rw [hclose, ← hdrop, hsplit, ← hrest]
    rfl
  · rintro ⟨before, name, after, back, rfl, hbefore, hne, hname, hafter⟩
    obtain ⟨c, tail, rfl⟩ := List.exists_cons_of_ne_nil hne
    have hstart : trimLeft (before ++ (c :: tail ++ (after ++ ')' :: back))) =
        c :: tail ++ (after ++ ')' :: back) := by
      rw [trimLeft_append_left hbefore, List.cons_append,
        trimLeft_cons (isBlank_eq_false_of_isWord (hname c List.mem_cons_self))]
    have hend : trimLeft (after ++ ')' :: back) = ')' :: back := by
      rw [trimLeft_append_left hafter, trimLeft_cons rfl]
    have htake : (c :: tail ++ (after ++ ')' :: back)).takeWhile isWord = c :: tail := by
      rw [List.takeWhile_append_of_pos hname, takeWhile_isWord_blanks hafter, List.append_nil]
    refine ⟨back, before ++ (c :: tail ++ (after ++ ')' :: back)), rfl, ?_, ?_⟩
    · rw [hstart, htake]
      exact hne
    · rw [hstart, htake, List.drop_left, hend]
      rfl

lemma exists_givenType_iff :
    ((behindType? cs).isSome ∨ (behind? ")" cs).isSome) ↔
      ∃ given back, IsGivenType given ∧ cs = given ++ ')' :: back := by
  rw [isSome_behindType?_iff, isSome_behind?_iff]
  constructor
  · rintro (⟨before, name, after, back, rfl, hbefore, hne, hname, hafter⟩ | ⟨back, rfl⟩)
    · exact ⟨_, back, .inr ⟨before, name, after, rfl, hbefore, hne, hname, hafter⟩, by simp⟩
    · exact ⟨[], back, .inl rfl, rfl⟩
  · rintro ⟨given, back, rfl | ⟨before, name, after, rfl, hbefore, hne, hname, hafter⟩, rfl⟩
    · exact .inr ⟨back, rfl⟩
    · exact .inl ⟨before, name, after, back, by simp, hbefore, hne, hname, hafter⟩

lemma IsGivenType.trimLeft_append {given : List Char} (h : IsGivenType given)
    (back : List Char) : trimLeft (given ++ ')' :: back) = given ++ ')' :: back := by
  rcases h with rfl | ⟨before, name, after, rfl, -⟩ <;> exact trimLeft_cons rfl

/-- What is read at the start of a text is a destructured parameter there. -/
theorem parameter?_eq_some_iff : parameter? cs = some names ↔
    ∃ inner text back, cs = text ++ back ∧ IsParameter inner text ∧ contents inner = names := by
  simp only [parameter?, Option.bind_eq_some_iff, behind?_eq_some_iff, destructured?_eq_some_iff,
    exists_givenType_iff]
  constructor
  · rintro ⟨rest, rfl, inner, behind, hrest, hclosed, hne, hnames, given, back, hgiven,
      hbehind⟩
    obtain ⟨before, hbefore, hopen⟩ := exists_eq_append_trimLeft rest
    obtain ⟨after, hafter, hclose⟩ := exists_eq_append_trimLeft behind
    refine ⟨inner, _, back, ?_,
      ⟨hne, hclosed, before, after, given, hbefore, hafter, hgiven, rfl⟩, hnames⟩
    rw [hopen, hrest, hclose, hbehind]
    simp
  · rintro ⟨inner, text, back, rfl, ⟨hne, hclosed, before, after, given, hbefore, hafter,
      hgiven, rfl⟩, hnames⟩
    refine ⟨before ++ '\x7b' :: (inner ++ '\x7d' :: (after ++ (given ++ ')' :: back))),
      by simp, inner, after ++ (given ++ ')' :: back), ?_, hclosed, hne, hnames, given, back,
      hgiven, ?_⟩
    · rw [trimLeft_append_left hbefore, trimLeft_cons rfl]
    · rw [trimLeft_append_left hafter, hgiven.trimLeft_append]

/-! ## Texts that no parameter leads out of -/

/-- No parameter that starts in the text goes on behind it, or would start there with more text
behind it. -/
def IsSettled (cs : List Char) : Prop :=
  ∀ s, s <:+ cs → s ≠ [] → ∀ more, parameter? (s ++ more) = parameter? s

variable {xs ys : List Char}

lemma parameter?_cons_of_ne {c : Char} (hc : c ≠ '(') (cs : List Char) :
    parameter? (c :: cs) = none := by
  rw [Option.eq_none_iff_forall_ne_some]
  intro names h
  obtain ⟨inner, text, back, heq, ⟨-, -, before, after, given, -, -, -, rfl⟩, -⟩ :=
    parameter?_eq_some_iff.1 h
  exact hc (List.cons.inj heq).1

/-- Without a parenthesis there is no parameter. -/
lemma isSettled_of_not_mem (h : '(' ∉ cs) : IsSettled cs := by
  intro s hs hne more
  obtain ⟨c, s, rfl⟩ := List.exists_cons_of_ne_nil hne
  have hc : c ≠ '(' := ne_of_mem_of_not_mem (hs.subset List.mem_cons_self) h
  rw [List.cons_append, parameter?_cons_of_ne hc, parameter?_cons_of_ne hc]

lemma firstMatch_eq_none (h : '(' ∉ cs) : firstMatch parameter? cs = none := by
  induction cs with
  | nil => rfl
  | cons c cs ih =>
    rw [List.mem_cons, not_or] at h
    rw [firstMatch, parameter?_cons_of_ne (Ne.symm h.1), Option.none_or, ih h.2]

lemma IsSettled.append (hx : IsSettled xs) (hy : IsSettled ys) : IsSettled (xs ++ ys) := by
  rintro s ⟨front, hs⟩ hne more
  rcases List.append_eq_append_iff.1 hs with ⟨t, rfl, rfl⟩ | ⟨t, rfl, rfl⟩
  · by_cases ht : t = []
    · subst ht
      exact hy _ List.suffix_rfl hne more
    · have hsuffix : t <:+ front ++ t := List.suffix_append front t
      rw [List.append_assoc, hx t hsuffix ht, hx t hsuffix ht]
  · exact hy s (List.suffix_append t s) hne more

/-- The first parameter of two texts is that of the first one of them that has one. -/
theorem firstMatch_append (h : IsSettled xs) (ys : List Char) :
    firstMatch parameter? (xs ++ ys) =
      (firstMatch parameter? xs).or (firstMatch parameter? ys) := by
  induction xs with
  | nil => rfl
  | cons c xs ih =>
    have htail : IsSettled xs := fun s hs => h s (hs.trans (List.suffix_cons c xs))
    have hhead := h (c :: xs) List.suffix_rfl (List.cons_ne_nil c xs) ys
    rw [List.cons_append] at hhead ⊢
    rw [firstMatch, firstMatch, hhead, ih htail, Option.or_assoc]

lemma IsGivenType.not_mem {given : List Char} (h : IsGivenType given) :
    ')' ∉ given := by
  rcases h with rfl | ⟨before, name, after, rfl, hbefore, -, hname, hafter⟩
  · exact List.not_mem_nil
  · have hblank : isBlank ')' = false := rfl
    have hword : ')' ∉ name := fun hmem => by cases hname _ hmem
    simp [not_mem_blanks hbefore hblank, not_mem_blanks hafter hblank, hword]

/-- A parameter at a parenthesis ends with the parenthesis that closes it, or before. -/
lemma IsParameter.exists_append {inside text behind back : List Char} (h : IsParameter inner text)
    (hinside : Nested inside) (heq : '(' :: (inside ++ ')' :: behind) = text ++ back) :
    ∃ more, '(' :: (inside ++ [')']) = text ++ more := by
  obtain ⟨-, hclosed, before, after, given, hbefore, hafter, hgiven, rfl⟩ := h
  have hblank : isBlank ')' = false := rfl
  -- The brace that opens stands between the parentheses,
  have hopen : inside ++ ')' :: behind =
      (before ++ ['\x7b']) ++ (inner ++ '\x7d' :: (after ++ given ++ ')' :: back)) := by
    simpa using heq
  obtain ⟨rest, rfl⟩ := exists_append_of_append_cons_eq hopen
    (by simp [not_mem_blanks hbefore hblank])
  rw [List.append_assoc, List.append_cancel_left_eq] at hopen
  -- so does the one that closes it, and the first one behind `inner` is not behind that one,
  obtain ⟨braced, rest, rfl, -⟩ := hinside.exists_closing (show ('\x7b', '\x7d') ∈ pairs by decide)
    before rest (by simp)
  rw [List.append_assoc, List.cons_append] at hopen
  obtain ⟨between, rfl⟩ := exists_append_of_append_cons_eq hopen hclosed
  rw [List.append_assoc, List.append_cancel_left_eq] at hopen
  obtain ⟨more, hmore⟩ := exists_cons_of_append_cons_eq hopen
  have hbraced : ∀ tail,
      between ++ '\x7d' :: (rest ++ tail) = '\x7d' :: (more ++ rest ++ tail) := by
    intro tail
    simpa using congrArg (· ++ (rest ++ tail)) hmore
  rw [hbraced, List.cons.injEq] at hopen
  -- and the type that the parameter is said to have does not reach over a parenthesis.
  obtain ⟨last, hlast⟩ := exists_append_of_append_cons_eq hopen.2
    (by simp [not_mem_blanks hafter hblank, hgiven.not_mem])
  rw [hlast, List.append_assoc, List.append_cancel_left_eq] at hopen
  obtain ⟨tail, htail⟩ := exists_cons_of_append_cons_eq hopen.2
  refine ⟨tail, ?_⟩
  have hend : between ++ '\x7d' :: (rest ++ [')']) =
      '\x7d' :: (after ++ given ++ ')' :: tail) := by
    rw [hbraced, hlast, List.append_assoc, htail]
  simp [hend]

/-- A parameter that starts in a text whose brackets match ends in it. -/
theorem isSettled_of_nested (h : Nested cs) : IsSettled cs := by
  intro s hs hne more
  obtain ⟨c, s, rfl⟩ := List.exists_cons_of_ne_nil hne
  by_cases hc : c = '('
  swap
  · rw [List.cons_append, parameter?_cons_of_ne hc, parameter?_cons_of_ne hc]
  subst hc
  obtain ⟨front, rfl⟩ := hs
  obtain ⟨inside, behind, rfl, hinside⟩ :=
    h.exists_closing (show ('(', ')') ∈ pairs by decide) front s rfl
  ext names
  simp only [parameter?_eq_some_iff]
  constructor
  · rintro ⟨inner, text, back, heq, hparameter, hnames⟩
    have heq' : '(' :: (inside ++ ')' :: (behind ++ more)) = text ++ back := by simpa using heq
    obtain ⟨after, hafter⟩ := hparameter.exists_append hinside heq'
    refine ⟨inner, text, after ++ behind, ?_, hparameter, hnames⟩
    rw [← List.append_assoc, ← hafter]
    simp
  · rintro ⟨inner, text, back, heq, hparameter, hnames⟩
    exact ⟨inner, text, back ++ more, by rw [heq, List.append_assoc], hparameter, hnames⟩

/-- Of texts that no parameter leads out of, the first one that has a parameter counts. -/
lemma isSettled_flatMap {α : Type} {f : α → List Char} {g : α → Option (List Char)}
    {items : List α} (h : ∀ x ∈ items, IsSettled (f x) ∧ firstMatch parameter? (f x) = g x) :
    IsSettled (items.flatMap f) ∧ firstMatch parameter? (items.flatMap f) = items.findSome? g := by
  induction items with
  | nil => exact ⟨isSettled_of_not_mem List.not_mem_nil, rfl⟩
  | cons x items ih =>
    obtain ⟨⟨hx, hg⟩, hitems⟩ := List.forall_mem_cons.1 h
    obtain ⟨hsettled, hfirst⟩ := ih hitems
    rw [List.flatMap_cons, firstMatch_append hx, hfirst, hg, List.findSome?_cons]
    refine ⟨hx.append hsettled, ?_⟩
    cases g x <;> rfl

/-- The default values are read from the first parameter. -/
lemma defaults_eq (cs : List Char) : defaults cs = match firstMatch parameter? cs with
    | none => []
    | some names => (cut (· == ',') names).filterMap default? := rfl

/-- Only the first parameter matters for the default values. -/
lemma defaults_congr (h : firstMatch parameter? xs = firstMatch parameter? ys) :
    defaults xs = defaults ys := by
  rw [defaults_eq, defaults_eq, h]

end Interface

end StyleGuide
