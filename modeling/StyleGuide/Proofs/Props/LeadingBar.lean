import StyleGuide.Proofs.Props.Separators
import StyleGuide.Proofs.Props.TypeReader

/-!
# Bars in front of a type

A bar in front of a type only adds a blank alternative, so that a type can be laid out in lines with
a bar in front of each. The name `Function` is the exception: it is looked for in the whole text,
before the alternatives are, and not in the only one that is left.

## Main definitions

* `Member.IsContinued`: a line and those that go on with it.
* `BarMember`: a member whose type can be laid out in lines.
* `BarMember.lines`: the lines of such a member, with its type behind bars or on one line.

## Main results

* `PropType.read_eq_iff`: texts with the same alternatives are read as the same type.
* `PropType.read_bar_iff`: when a bar in front of a type changes nothing.
* `Member.joinedLines_flatMap`: lines that go on with others are joined to them.
* `BarMember.readAll_lines`: members are read back from their lines.
* `BarMember.read_leadingBar_iff`: when members are the same however they are laid out.
-/

namespace StyleGuide

namespace PropType

open StyleGuide.Bracket Member

variable {a b : List Char}

/-! ## Types with the same alternatives -/

/-- Unless it is the name of a function, a text is read by its arrows and its alternatives. -/
lemma read_congr (harrow : hasArrow (trim a) = hasArrow (trim b))
    (halternatives : alternatives (trim a) = alternatives (trim b))
    (hne : alternatives (trim b) ≠ []) (ha : trim a ≠ "Function".toList)
    (hb : trim b ≠ "Function".toList) : read a = read b := by
  obtain ⟨p, ps, hps⟩ := List.exists_cons_of_ne_nil hne
  conv_lhs => rw [read]
  conv_rhs => rw [read]
  by_cases hfunction : hasArrow (trim b) = true
  · rw [if_pos (.inl (harrow.trans hfunction)), if_pos (.inl hfunction)]
  · have hfunction' : ¬ hasArrow (trim a) = true := by rwa [harrow]
    rw [if_neg (not_or.2 ⟨hfunction', ha⟩), if_neg (not_or.2 ⟨hfunction, hb⟩), halternatives, hps]
    rfl

/-- When it is the only alternative that is left, the name of a function is a name like others. -/
lemma read_of_alternatives_function (ha : trim a ≠ "Function".toList)
    (harrow : hasArrow (trim a) = false)
    (halternatives : alternatives (trim a) = ["Function".toList]) :
    read a = primitive "Function" := by
  have hlength : ¬ 2 ≤ (alternatives (trim a)).length := by simp [halternatives]
  rw [read, if_neg (not_or.2 ⟨by simp [harrow], ha⟩), dif_neg hlength, halternatives]
  rfl

/-- Two texts with the same arrows and alternatives are read as the same type, unless one of them is
the name of a function. -/
theorem read_eq_iff (harrow : hasArrow a = hasArrow b)
    (halternatives : alternatives a = alternatives b) (hne : alternatives b ≠ [])
    (ha : trim a ≠ "Function".toList) : read a = read b ↔ trim b ≠ "Function".toList := by
  have htrim : ∀ cs, alternatives (trim cs) = alternatives cs :=
    parts_trim isBar_eq_false_of_isBlank
  rw [← hasArrow_trim a, ← hasArrow_trim b] at harrow
  rw [← htrim a, ← htrim b] at halternatives
  rw [← htrim b] at hne
  constructor
  · intro heq hb
    have hfunction : read b = primitive "func" := by rw [read, if_pos (.inr hb)]
    rw [hb] at harrow halternatives
    have hother : read a = primitive "Function" :=
      read_of_alternatives_function ha harrow (halternatives.trans (by decide))
    rw [hother, hfunction] at heq
    exact absurd (primitive.inj heq) (by decide)
  · exact read_congr harrow halternatives hne ha

/-- A bar in front of a type changes nothing, unless the type is the name of a function. -/
theorem read_bar_iff (hne : alternatives a ≠ []) :
    read ('|' :: a) = read a ↔ trim a ≠ "Function".toList := by
  have hbar : IsBetween (· == '|') ['|'] := by decide
  have halternatives : alternatives ('|' :: a) = alternatives a :=
    parts_gap_append isNeutral_of_bar hbar a
  refine read_eq_iff (hasArrow_cons rfl a) halternatives hne ?_
  rw [trim_cons rfl]
  simp

end PropType

namespace Member

/-! ## Lines that go on -/

/-- A line that starts like a name, and lines that go on with it. -/
def IsContinued (block : List (List Char)) : Prop :=
  ∃ first rest, block = first :: rest ∧ StartsLikeName first ∧
    ∀ line ∈ rest, isContinuation line = true

/-- Lines that go on with the one above are joined to it. -/
lemma foldl_addLine_continued {above : List Char} {rest : List (List Char)}
    (habove : StartsLikeName above) (hrest : ∀ line ∈ rest, isContinuation line = true)
    (done : List (List Char)) :
    rest.foldl addLine (above :: done) = joinWith '\n' (above :: rest) :: done := by
  -- What has been joined so far still starts like a name, so it is no comment.
  induction rest generalizing above with
  | nil => rfl
  | cons line rest ih =>
    obtain ⟨hline, hrest⟩ := List.forall_mem_cons.1 hrest
    have hcomment := habove.commentText?_eq
    have hjoin : joinWith '\n' ((above ++ '\n' :: line) :: rest) =
        joinWith '\n' (above :: line :: rest) := by
      cases rest <;> simp [joinWith]
    rw [List.foldl_cons, addLine, if_pos ⟨hline, hcomment⟩, ih (habove.append _) hrest, hjoin]

lemma foldl_addLine_flatMap {α : Type} {block : α → List (List Char)} {as : List α}
    (h : ∀ a ∈ as, IsContinued (block a)) (done : List (List Char)) :
    (as.flatMap block).foldl addLine done =
      (as.map fun a => joinWith '\n' (block a)).reverse ++ done := by
  induction as generalizing done with
  | nil => rfl
  | cons a as ih =>
    obtain ⟨ha, has⟩ := List.forall_mem_cons.1 h
    obtain ⟨first, rest, hblock, hfirst, hrest⟩ := ha
    have hadd : addLine done first = first :: done := by
      cases done with
      | nil => rfl
      | cons above others => simp [addLine, hfirst.isContinuation_eq]
    rw [List.flatMap_cons, List.foldl_append, hblock, List.foldl_cons, hadd,
      foldl_addLine_continued hfirst hrest, ih has, List.map_cons, List.reverse_cons, hblock,
      List.append_assoc, List.singleton_append]

/-- Each block of lines that go on with the first of them is joined to one line. -/
theorem joinedLines_flatMap {α : Type} {block : α → List (List Char)} {as : List α}
    {body : List Char} (hbody : lines body = as.flatMap block)
    (h : ∀ a ∈ as, IsContinued (block a)) :
    joinedLines body = as.map fun a => joinWith '\n' (block a) := by
  rw [joinedLines_eq, hbody, foldl_addLine_flatMap h]
  simp

end Member

open StyleGuide.Bracket PropType Member

/-! ## Layouts -/

/-- A member whose type can be laid out in lines. -/
structure BarMember where
  name : List Char
  isOptional : Bool
  /-- The texts between the bars of the type, but for the last one. -/
  front : List (List Char)
  last : List Char
  /-- The separator behind the type, if there is one. -/
  ending : List Char

namespace BarMember

/-- The texts between the bars of the type, of which there is at least one. -/
def texts (m : BarMember) : List (List Char) := m.front ++ [m.last]

/-- What stands in front of the first text. -/
def opener (isBarred : Bool) : List Char := if isBarred then "| ".toList else []

/-- What stands between two texts. -/
def between (isBarred : Bool) : List Char := if isBarred then "\n| ".toList else " | ".toList

/-- The type, with its texts behind bars on lines of their own or all on one line. -/
def type (m : BarMember) (isBarred : Bool) : List Char :=
  opener isBarred ++ (between isBarred).intercalate m.texts

/-- The lines of the member. -/
def lines (m : BarMember) : Bool → List (List Char)
  | true =>
    (m.name ++ colon m.isOptional) ::
      (m.front.map ("| ".toList ++ ·) ++ ["| ".toList ++ m.last ++ m.ending])
  | false => [m.name ++ mark m.isOptional ++ m.type false ++ m.ending]

/-- The member that should be read. -/
def toMember (m : BarMember) (isBarred : Bool) : Member :=
  ⟨m.name, m.isOptional, m.type isBarred, []⟩

/-- The members that can be read back from their lines. -/
structure IsWritten (m : BarMember) : Prop where
  isName : IsName m.name
  isTypeLine : ∀ text ∈ m.texts, IsTypeLine text
  someAlternative : alternatives (m.type false) ≠ []
  ending : m.ending ∈ [[], [';'], [',']]

variable {m : BarMember}

/-! ## Types in layouts -/

/-- The texts of a type, each behind what stands in front of it. -/
def entries (isBarred : Bool) : List (List Char) → List (List Char × List Char)
  | [] => []
  | p :: ps => (opener isBarred, p) :: ps.map fun q => (between isBarred, q)

lemma append_spread_map (gap p : List Char) (ps : List (List Char)) :
    p ++ spread (ps.map fun q => (gap, q)) = gap.intercalate (p :: ps) := by
  induction ps generalizing p with
  | nil => simp [spread]
  | cons q ps ih =>
    rw [List.map_cons, spread_cons, ih, List.intercalate_cons_cons, List.append_assoc]

lemma type_eq_spread (m : BarMember) (isBarred : Bool) :
    m.type isBarred = spread (entries isBarred m.texts) := by
  obtain ⟨p, ps, htexts⟩ : ∃ p ps, m.texts = p :: ps :=
    List.exists_cons_of_ne_nil (by simp [texts])
  rw [type, htexts, entries, spread_cons, append_spread_map]

lemma map_snd_entries (isBarred : Bool) (ps : List (List Char)) :
    (entries isBarred ps).map Prod.snd = ps := by
  cases ps with
  | nil => rfl
  | cons p ps => simp [entries, Function.comp_def]

lemma spec_of_mem_entries {isBarred : Bool} {ps : List (List Char)} {e : List Char × List Char}
    (h : e ∈ entries isBarred ps) :
    (e.1 = opener isBarred ∨ e.1 = between isBarred) ∧ e.2 ∈ ps := by
  cases ps with
  | nil => cases h
  | cons p ps =>
    rcases List.mem_cons.1 h with rfl | h
    · exact ⟨.inl rfl, List.mem_cons_self⟩
    · obtain ⟨q, hq, rfl⟩ := List.mem_map.1 h
      exact ⟨.inr rfl, List.mem_cons_of_mem p hq⟩

namespace IsWritten

/-- The bars tell the texts of a type apart. -/
lemma isSpread (h : m.IsWritten) (isBarred : Bool) :
    IsSpread (· == '|') (entries isBarred m.texts) := by
  have hopener : IsBetween (· == '|') (opener isBarred) := by cases isBarred <;> decide
  have hbetween : IsBetween (· == '|') (between isBarred) ∧
      (between isBarred).any (· == '|') = true := by cases isBarred <;> decide
  refine ⟨fun e he => ?_, fun e he => ?_, fun e he => ?_⟩
  · rcases (spec_of_mem_entries he).1 with heq | heq
    · exact heq ▸ hopener
    · exact heq ▸ hbetween.1
  · cases htexts : m.texts with
    | nil =>
      rw [htexts] at he
      cases he
    | cons p ps =>
      rw [htexts, entries, List.tail_cons] at he
      obtain ⟨q, -, rfl⟩ := List.mem_map.1 he
      exact hbetween.2
  · exact (h.isTypeLine e.2 (spec_of_mem_entries he).2).closes

lemma alternatives_type (h : m.IsWritten) (isBarred : Bool) :
    alternatives (m.type isBarred) = m.texts.flatMap alternatives := by
  have hparts := parts_spread isNeutral_of_bar (h.isSpread isBarred)
  rw [← map_snd_entries isBarred m.texts, List.flatMap_map, type_eq_spread]
  exact hparts

lemma hasArrow_type (h : m.IsWritten) (isBarred : Bool) :
    hasArrow (m.type isBarred) = m.texts.any hasArrow := by
  rw [type_eq_spread, hasArrow_spread isNeutral_of_bar (h.isSpread isBarred)]
  conv_rhs => rw [← map_snd_entries isBarred m.texts, List.any_map]
  rfl

lemma depthAfter_type (h : m.IsWritten) (isBarred : Bool) : depthAfter (m.type isBarred) = 0 := by
  rw [type_eq_spread]
  exact depthAfter_spread isNeutral_of_bar (h.isSpread isBarred)

lemma clean_type (h : m.IsWritten) (isBarred : Bool) : Clean endsDeclaration (m.type isBarred) := by
  have hgap : (opener isBarred).any endsDeclaration = false ∧
      (between isBarred).any endsDeclaration = false := by cases isBarred <;> decide
  rw [type_eq_spread]
  refine (along_spread isNeutral_of_bar (h.isSpread isBarred)).2 fun e he => ?_
  obtain ⟨hfront, htext⟩ := spec_of_mem_entries he
  refine ⟨fun c hc _ => ?_, (h.isTypeLine e.2 htext).clean⟩
  rcases hfront with heq | heq
  · exact eq_false_of_any hgap.1 (heq ▸ hc)
  · exact eq_false_of_any hgap.2 (heq ▸ hc)

lemma isTrimmed_type (h : m.IsWritten) (isBarred : Bool) : IsTrimmed (m.type isBarred) := by
  have htexts : IsTrimmed ((between isBarred).intercalate m.texts) :=
    .intercalate (between isBarred) (by simp [texts]) fun text htext =>
      (h.isTypeLine text htext).isTrimmed
  have hbar : IsTrimmed ['|'] := by decide
  cases isBarred with
  | true => exact hbar.append htexts
  | false => exact htexts

end IsWritten

/-! ## Members in layouts -/

/-- The blank behind the colon. -/
def blank (isBarred : Bool) : Char := if isBarred then '\n' else ' '

lemma isBlank_blank (isBarred : Bool) : isBlank (blank isBarred) = true := by
  cases isBarred <;> rfl

/-- The declaration of a member, without the separator behind it. -/
def text (m : BarMember) (isBarred : Bool) : List Char :=
  m.name ++ colon m.isOptional ++ blank isBarred :: m.type isBarred

lemma joinWith_map_append (gap p : List Char) (ps : List (List Char)) :
    joinWith '\n' ((p :: ps).map (gap ++ ·)) = gap ++ ('\n' :: gap).intercalate (p :: ps) := by
  induction ps generalizing p with
  | nil => simp [joinWith]
  | cons q ps ih =>
    have hq := ih q
    rw [List.map_cons] at hq ⊢
    rw [List.map_cons, joinWith, hq, List.intercalate_cons_cons]
    simp

/-- The lines of a member are joined to its declaration. -/
lemma joinWith_lines (m : BarMember) (isBarred : Bool) :
    joinWith '\n' (m.lines isBarred) = m.text isBarred ++ m.ending := by
  cases isBarred with
  | false => simp [lines, text, blank, joinWith, mark_eq]
  | true =>
    obtain ⟨p, ps, htexts⟩ : ∃ p ps, m.texts = p :: ps :=
      List.exists_cons_of_ne_nil (by simp [texts])
    have htype : joinWith '\n' (m.front.map ("| ".toList ++ ·) ++ ["| ".toList ++ m.last]) =
        m.type true := by
      rw [← List.map_singleton (f := ("| ".toList ++ ·)), ← List.map_append, ← texts, htexts,
        joinWith_map_append, type, htexts]
      rfl
    obtain ⟨l, ls, hlines⟩ : ∃ l ls,
        m.front.map ("| ".toList ++ ·) ++ ["| ".toList ++ m.last ++ m.ending] = l :: ls :=
      List.exists_cons_of_ne_nil (by simp)
    rw [lines, hlines, joinWith, ← hlines, joinWith_concat_append, htype, text]
    simp [blank]

namespace IsWritten

lemma depthAfter_text (h : m.IsWritten) (isBarred : Bool) : depthAfter (m.text isBarred) = 0 := by
  have hcolon := (balanced_clean_colon h.isName m.isOptional).1.closes
  rw [text, depthAfter_append_cons hcolon (isNeutral_of_isBlank (isBlank_blank isBarred)),
    h.depthAfter_type]

lemma isBetween_ending (h : m.IsWritten) : IsBetween endsDeclaration m.ending := by
  have hall : ∀ ending ∈ [[], [';'], [',']], IsBetween endsDeclaration ending := by decide
  exact hall m.ending h.ending

lemma depthAfter_lines (h : m.IsWritten) (isBarred : Bool) :
    depthAfter (joinWith '\n' (m.lines isBarred)) = 0 := by
  have hending := h.isBetween_ending.balanced isNeutral_of_endsDeclaration
  rw [joinWith_lines, depthAfter_append (h.depthAfter_text isBarred) hending.head_ne,
    hending.closes]

/-- A declaration is its own only part, and the separator behind it is none. -/
lemma parts_text (h : m.IsWritten) (isBarred : Bool) :
    parts endsDeclaration (m.text isBarred ++ m.ending) = [m.text isBarred] := by
  obtain ⟨hbalanced, hcolon⟩ := balanced_clean_colon h.isName m.isOptional
  have hblank := isBlank_blank isBarred
  have hclean : Clean endsDeclaration (m.text isBarred) :=
    (along_append_cons hbalanced.closes (isNeutral_of_isBlank hblank)).2
      ⟨hcolon, fun _ => endsDeclaration_eq_false_of_isBlank _ hblank, h.clean_type isBarred⟩
  have hsplit : m.text isBarred =
      m.name ++ (colon m.isOptional ++ [blank isBarred]) ++ m.type isBarred := by simp [text]
  have htrimmed : IsTrimmed (m.text isBarred) :=
    hsplit ▸ h.isName.isTrimmed.append (h.isTrimmed_type isBarred)
  rw [parts_append_gap isNeutral_of_endsDeclaration (h.depthAfter_text isBarred) h.isBetween_ending]
  exact parts_eq_singleton hclean htrimmed

lemma startsLikeName_text (h : m.IsWritten) (isBarred : Bool) :
    StartsLikeName (m.text isBarred) := by
  rw [text, List.append_assoc]
  exact h.isName.startsLikeName.append _

lemma readDeclaration?_text (h : m.IsWritten) (isBarred : Bool) :
    readDeclaration? (m.text isBarred) = some (m.name, m.isOptional, m.type isBarred) := by
  have htrimmed := h.isTrimmed_type isBarred
  have hbehind : trimLeft (blank isBarred :: m.type isBarred) = m.type isBarred := by
    rw [trimLeft_cons_of_isBlank (isBlank_blank isBarred), htrimmed.trimLeft_eq]
  have hne := ne_of_eq_of_ne hbehind htrimmed.ne_nil
  rw [text, readDeclaration?_colon h.isName m.isOptional hne, hbehind,
    typeText_eq htrimmed (h.depthAfter_type isBarred) (h.clean_type isBarred)]

/-- The lines of a member are read as its declaration. -/
lemma linePieces_lines (h : m.IsWritten) (isBarred : Bool) :
    linePieces (joinWith '\n' (m.lines isBarred)) = [.declaration (m.text isBarred)] := by
  have hparts := h.parts_text isBarred
  have hstarts := h.startsLikeName_text isBarred
  have hcomment := (hstarts.append m.ending).commentText?_eq
  rw [joinWith_lines, linePieces, hcomment, declarationsOf_eq_parts, hparts]
  · rfl
  · rw [hparts]
    exact List.forall_mem_singleton.2 hstarts.commentText?_eq

/-- Behind the first line, each line of a member starts with a bar. -/
lemma isContinued (h : m.IsWritten) (isBarred : Bool) : IsContinued (m.lines isBarred) := by
  have hname := h.isName.startsLikeName
  cases isBarred with
  | true =>
    refine ⟨_, _, rfl, hname.append _, fun line hline => ?_⟩
    rcases List.mem_append.1 hline with hline | hline
    · obtain ⟨text, -, rfl⟩ := List.mem_map.1 hline
      rfl
    · cases List.mem_singleton.1 hline
      rfl
  | false =>
    refine ⟨_, [], rfl, ?_, List.forall_mem_nil _⟩
    rw [List.append_assoc, List.append_assoc]
    exact hname.append _

end IsWritten

/-! ## Bodies in layouts -/

variable {us : List (Bool × BarMember)} {body flat : List Char}

/-- Members are read back from their lines, however each of them is laid out. -/
theorem readAll_lines (h : ∀ u ∈ us, u.2.IsWritten)
    (hbody : Member.lines body = us.flatMap fun u => u.2.lines u.1) :
    readAll body = .ok (us.map fun u => u.2.toMember u.1) := by
  have hjoined := joinedLines_flatMap hbody fun u hu => (h u hu).isContinued u.1
  have hclosed : ∀ line ∈ us.map fun u => joinWith '\n' (u.2.lines u.1), depthAfter line = 0 :=
    List.forall_mem_map.2 fun u hu => (h u hu).depthAfter_lines u.1
  have hpieces : pieces body = (us.map fun u => u.2.text u.1).map .declaration := by
    rw [pieces, hjoined, group_eq_flatMap fun line hline _ => Int.le_of_eq (hclosed line hline),
      List.flatMap_map, List.map_map, List.map_eq_flatMap]
    exact List.flatMap_congr fun u hu => (h u hu).linePieces_lines u.1
  rw [readAll, hpieces]
  exact ofPieces_map fun u hu => ⟨rfl, (h u hu).readDeclaration?_text u.1⟩

/-- A type is the same in both layouts, unless it is the name of a function. -/
lemma read_type_iff {m : BarMember} (h : m.IsWritten) :
    read (m.type true) = read (m.type false) ↔ m.type false ≠ "Function".toList := by
  have harrow := (h.hasArrow_type true).trans (h.hasArrow_type false).symm
  have halternatives := (h.alternatives_type true).trans (h.alternatives_type false).symm
  have hstarts : trim (m.type true) ≠ "Function".toList := by
    rw [(h.isTrimmed_type true).trim_eq]
    intro heq
    cases (List.cons.inj heq).1
  rw [read_eq_iff harrow halternatives h.someAlternative hstarts, (h.isTrimmed_type false).trim_eq]

/-- A bar in front of a type changes nothing, and neither does it matter for the properties of an
interface whether the types of members are laid out in lines behind bars or stand on one line,
unless such a type is the name of a function. -/
theorem read_leadingBar_iff {s : List Char} (hs : alternatives s ≠ [])
    (h : ∀ u ∈ us, u.2.IsWritten)
    (hbody : Member.lines body = us.flatMap fun u => u.2.lines u.1)
    (hflat : Member.lines flat = us.flatMap fun u => u.2.lines false) :
    (read ('|' :: s) = read s ↔ trim s ≠ "Function".toList) ∧
      ∃ ms ms', readAll body = .ok ms ∧ readAll flat = .ok ms' ∧
        ((ms.map fun m => ofMember m (read m.type)) = (ms'.map fun m => ofMember m (read m.type)) ↔
          ∀ u ∈ us, u.1 = true → u.2.type false ≠ "Function".toList) := by
  have hwritten : ∀ v ∈ us.map fun u => (false, u.2), v.2.IsWritten := List.forall_mem_map.2 h
  have hread := readAll_lines hwritten (by rw [hflat, List.flatMap_map])
  refine ⟨read_bar_iff hs, _, _, readAll_lines h hbody, hread, ?_⟩
  rw [List.map_map, List.map_map, List.map_map, List.map_inj_left]
  refine forall₂_congr fun u hu => ?_
  obtain ⟨isBarred, m⟩ := u
  cases isBarred with
  | true =>
    have hiff := read_type_iff (h _ hu)
    simp only [Function.comp_apply, toMember, ofMember]
    simpa using hiff
  | false => simp

/-- A size that is laid out in lines, and a function that is not. -/
def buttonMembers : List (Bool × BarMember) :=
  [(true, ⟨"size".toList, true, ["'small'".toList], "'large'".toList, [';']⟩),
    (false, ⟨"onClick".toList, false, [], "Function".toList, []⟩)]

/-- The first body is
```

  size?:
    | 'small'
    | 'large';

  onClick: Function

```
and in the second one each member is on one line. -/
theorem read_leadingBar_buttonMembers :
    read "| 'small' | 'large'".toList = read " 'small' | 'large'".toList ∧
      ∃ ms ms',
        readAll ("\n  size?:\n    | 'small'\n    | 'large';\n\n  onClick: Function\n".toList) =
            .ok ms ∧
          readAll "size?: 'small' | 'large';\nonClick: Function".toList = .ok ms' ∧
            (ms.map fun m => ofMember m (read m.type)) =
              ms'.map fun m => ofMember m (read m.type) := by
  have hwritten : ∀ u ∈ buttonMembers, u.2.IsWritten :=
    List.forall_mem_cons.2 ⟨⟨by decide, by decide, by decide, by decide⟩,
      List.forall_mem_singleton.2 ⟨by decide, by decide, by decide, by decide⟩⟩
  have hbody : Member.lines
      "\n  size?:\n    | 'small'\n    | 'large';\n\n  onClick: Function\n".toList =
        buttonMembers.flatMap fun u => u.2.lines u.1 := by decide
  have hflat : Member.lines "size?: 'small' | 'large';\nonClick: Function".toList =
      buttonMembers.flatMap fun u => u.2.lines false := by decide
  have hs : alternatives " 'small' | 'large'".toList ≠ [] := by decide
  obtain ⟨hbar, ms, ms', hms, hms', hiff⟩ := read_leadingBar_iff hs hwritten hbody hflat
  exact ⟨hbar.2 (by decide), ms, ms', hms, hms', hiff.2 (by decide)⟩

/-- A function. -/
def handlerMember : BarMember := ⟨"onClick".toList, false, [], "Function".toList, [';']⟩

/-- Behind a bar, a function that is called `Function` is not read as one:
```

  onClick:
    | Function;

```
declares another property than `onClick: Function;`. -/
theorem read_leadingBar_function :
    let props := fun body : List Char =>
      (readAll body).map fun ms => ms.map fun m => ofMember m (read m.type)
    alternatives " Function".toList ≠ [] ∧
      read "| Function".toList = primitive "Function" ∧
      read " Function".toList = primitive "func" ∧
      props "\n  onClick:\n    | Function;\n".toList =
        .ok [("onClick", ⟨some (primitive "Function"), none, true, none, ""⟩)] ∧
      props "\n  onClick: Function;\n".toList =
        .ok [("onClick", ⟨some (primitive "func"), none, true, none, ""⟩)] := by
  have hbar : read "| Function".toList = primitive "Function" :=
    read_of_alternatives_function (by decide) (by decide) (by decide)
  have hfunction : read "Function".toList = primitive "func" := by
    rw [PropType.read, if_pos (by decide)]
  have hblank : read " Function".toList = primitive "func" := by
    rw [PropType.read, if_pos (by decide)]
  have hwritten : handlerMember.IsWritten := ⟨by decide, by decide, by decide, by decide⟩
  have hall : ∀ isBarred : Bool, ∀ u ∈ [(isBarred, handlerMember)], u.2.IsWritten := fun _ =>
    List.forall_mem_singleton.2 hwritten
  have hlines : readAll "\n  onClick:\n    | Function;\n".toList =
      .ok [⟨"onClick".toList, false, "| Function".toList, []⟩] :=
    readAll_lines (hall true) (by decide)
  have hline : readAll "\n  onClick: Function;\n".toList =
      .ok [⟨"onClick".toList, false, "Function".toList, []⟩] :=
    readAll_lines (hall false) (by decide)
  refine ⟨by decide, hbar, hblank, ?_, ?_⟩
  · simp only [hlines, Except.map, List.map_singleton, ofMember, hbar]
    rfl
  · simp only [hline, Except.map, List.map_singleton, ofMember, hfunction]
    rfl

end BarMember

end StyleGuide
