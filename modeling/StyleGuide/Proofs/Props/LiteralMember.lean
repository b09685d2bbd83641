import StyleGuide.Proofs.Props.Interface
import StyleGuide.Proofs.Props.LiteralUnion

/-!
# Members with unions of literals

An interface with members on lines of their own, the types of which are unions of literals between
single quotes. A separator outside of brackets cuts a literal in two, and an open bracket in one
draws the lines below into the member. Either way something of the union is lost or something is
added to it, which its literals show, so there is nothing that makes up for it later.

## Main definitions

* `LiteralMember`: a member of this kind.
* `LiteralMember.expected`: the property that it should be read as.

## Main results

* `LiteralMember.declares_group_of_closed`, `LiteralMember.declares_group_of_open`: when the line of
  a member is read as its property.
* `LiteralMember.declares_group_iff`: when the lines of members are read as their properties.
* `Interface.stated_extract_literalMembers_iff`: when each member is extracted as its property.
-/

namespace StyleGuide

namespace Member

open StyleGuide.Bracket PropType

/-! ## The text of a type -/

lemma typeText_trimRight (cs : List Char) : typeText (trimRight cs) = typeText cs := by
  unfold typeText
  rw [trimRight_trimRight]

/-- Only a separator at the end is not part of a type. -/
lemma ink_typeText (cs : List Char) :
    ink (typeText cs) ≤ ink cs ∧ ink cs ≤ ink (typeText cs) + 1 := by
  have hwhole := ink_trimRight cs
  unfold typeText
  simp only
  split
  next hends =>
    obtain ⟨c, hc, -⟩ := Option.any_eq_true _ _ |>.1 hends
    obtain ⟨shorter, hshorter⟩ := List.getLast?_eq_some_iff.1 hc
    rw [hshorter, ink_append] at hwhole
    have hone : ink [c] ≤ 1 := List.countP_le_length
    rw [hshorter, List.dropLast_concat]
    split
    · rw [ink_append]
      omega
    · rw [ink_trimRight]
      omega
  · omega

/-- What starts with a quote does so without a separator at the end. -/
lemma exists_typeText_eq_cons (cs : List Char) :
    ∃ rest, typeText ('\'' :: cs) = '\'' :: rest := by
  have hwhole : trimRight ('\'' :: cs) = '\'' :: trimRight cs := trimRight_cons rfl cs
  unfold typeText
  simp only [hwhole]
  split
  next hends =>
    cases htail : trimRight cs with
    | nil =>
      rw [htail] at hends
      cases hends
    | cons c tail =>
      have hdrop : trimRight ('\'' :: (c :: tail).dropLast) =
          '\'' :: trimRight (c :: tail).dropLast :=
        trimRight_cons rfl _
      rw [List.dropLast_cons_cons, hdrop, if_neg (List.cons_ne_nil _ _)]
      exact ⟨_, rfl⟩
  · exact ⟨_, rfl⟩

lemma typeText_quoted (x : List Char) :
    typeText (quoted x) = quoted x ∧ typeText (quoted x ++ [';']) = quoted x := by
  have htrim := (isTrimmed_quoted x).trimRight_eq
  have hne : quoted x ≠ [] := List.cons_ne_nil _ _
  have hlast : (quoted x).getLast? = some '\'' := by simp [quoted, List.getLast?_cons]
  have hseparator : trimRight (quoted x ++ [';']) = quoted x ++ [';'] := trimRight_concat rfl
  constructor
  · unfold typeText
    simp [htrim, hlast]
  · unfold typeText
    simp [hseparator, htrim, hne]

/-! ## The first part of a declaration -/

variable {name : List Char} {x : List Char}

/-- The name in front of a type is part of the first declaration, and opens no bracket. -/
lemma split_name_append (h : IsName name) (isOptional : Bool) {cs : List Char}
    (hcs : cs.head? ≠ some '>') :
    split endsDeclaration (name ++ mark isOptional ++ cs) =
        prepend (name ++ mark isOptional) (split endsDeclaration cs) ∧
      depthAfter (name ++ mark isOptional ++ cs) = depthAfter cs := by
  obtain ⟨hbalanced, hclean⟩ := balanced_clean_name h isOptional
  have hdepth : (start.after (name ++ mark isOptional)).depth = 0 := hbalanced.closes
  constructor
  · rw [split, splitFrom_append hclean, splitFrom_eq_split hcs hdepth]
  · rw [depthAfter_eq, after_append, after_depth_eq hcs, hdepth, Int.zero_add]

/-- A separator in a literal cuts it. -/
lemma exists_split_of_not_clean (h : ¬ Clean endsDeclaration (quoted x)) (ys : List Char) :
    ∃ front pieces, split endsDeclaration (quoted x ++ ys) = ('\'' :: front) :: pieces ∧
      ink (typeText ('\'' :: front)) ≠ ink (quoted x) := by
  obtain ⟨front, s, back, hquoted, hs, hsplit⟩ := exists_splitFrom_eq_cons h
  cases front with
  | nil =>
    cases (List.cons.inj hquoted).1
    cases hs
  | cons q front =>
    cases (List.cons.inj hquoted).1
    refine ⟨front, _, hsplit ys, ?_⟩
    have hink : ink [s] = 1 := by
      simp only [endsDeclaration, Bool.or_eq_true, decide_eq_true_eq] at hs
      rcases hs with rfl | rfl <;> rfl
    have htype := (ink_typeText ('\'' :: front)).1
    rw [hquoted, ← List.singleton_append (l := back), ink_append, ink_append, hink]
    omega

/-- With a line behind it a union is not what it was. -/
lemma ink_typeText_ne (x : List Char) {c : Char} (hc : startsName c = true) (ys : List Char) :
    ink (typeText (quoted x ++ ';' :: '\n' :: c :: ys)) ≠ ink (quoted x) := by
  have hink : isInk c = true := by
    have hblank := (not_isBlank_of_startsName hc).1
    have hbar : c ≠ '|' := by
      rintro rfl
      cases hc
    simp [isInk, hblank, hbar]
  have hmore : ink (';' :: '\n' :: c :: ys) = ink ys + 2 := by
    have hbreak : ∀ cs, ink (';' :: '\n' :: cs) = ink cs + 1 := fun cs => by
      rw [ink_cons, ink_cons]
      rfl
    rw [hbreak, ink_cons, if_pos hink]
  have htype := (ink_typeText (quoted x ++ ';' :: '\n' :: c :: ys)).2
  rw [ink_append, hmore] at htype
  omega

/-- The separator behind a union with an open bracket ends nothing, and neither does the name on the
next line. -/
lemma exists_split_of_open (hclean : Clean endsDeclaration (quoted x))
    (hopen : 0 < depthAfter (quoted x)) {c : Char} (hc : startsName c = true) (ys : List Char) :
    ∃ front pieces, split endsDeclaration (quoted x ++ ';' :: '\n' :: c :: ys) =
        ('\'' :: front) :: pieces ∧ ink (typeText ('\'' :: front)) ≠ ink (quoted x) := by
  have hdepth : (start.after (quoted x)).depth ≠ 0 := by
    rw [← depthAfter_eq]
    omega
  have hname := (not_isBlank_of_startsName hc).2
  have hline : Along (fun d c => d = 0 → endsDeclaration c = false) start
      (quoted x ++ [';', '\n']) := by
    refine along_append.2 ⟨hclean, fun hzero => absurd hzero hdepth, fun _ => rfl, trivial⟩
  obtain ⟨piece, pieces, hpieces⟩ :=
    exists_splitFrom_cons hname (start.after (quoted x ++ [';', '\n'])) ys
  have hassoc : quoted x ++ ';' :: '\n' :: c :: ys = quoted x ++ [';', '\n'] ++ c :: ys := by simp
  refine ⟨x ++ '\'' :: ';' :: '\n' :: c :: piece, pieces, ?_, ?_⟩
  · rw [hassoc, split, splitFrom_append hline, hpieces, prepend]
    simp [quoted]
  · have hne := ink_typeText_ne x hc piece
    simpa [quoted] using hne

/-! ## The first declaration of a text -/

/-- Where the first part of a text starts like a name it is the first declaration. -/
lemma exists_declarationsOf_eq_cons {cs first : List Char} {pieces : List (List Char)}
    (hfirst : StartsLikeName first) (hsplit : split endsDeclaration cs = first :: pieces) :
    ∃ others, declarationsOf cs = trim first :: others := by
  obtain ⟨c, tail, rfl, hc⟩ := hfirst
  have htrim := trim_cons (not_isBlank_of_startsName hc).1 tail
  have hcomment : commentText? (c :: trimRight tail) = none := (commentText?_cons hc).1
  rw [declarationsOf_eq, hsplit, List.map_cons, htrim,
    List.filter_cons_of_pos (by simp [hcomment])]
  exact ⟨_, rfl⟩

/-- Lines that belong together start with a declaration: it is what stands in front of the first
separator, or all of them when their brackets are never closed. -/
lemma exists_group_eq_cons {buffer : List Char} (hbuffer : StartsLikeName buffer)
    (lines : List (List Char)) :
    ∃ more text ps, group buffer lines = .declaration (trim text) :: ps ∧
      (text = buffer ++ more ∨ ∃ pieces, split endsDeclaration (buffer ++ more) = text :: pieces) ∧
        ∀ line rest, lines = line :: rest → ∃ behind, more = '\n' :: line ++ behind := by
  induction lines generalizing buffer with
  | nil =>
    refine ⟨[], buffer, [], ?_, .inl (by simp), by simp⟩
    obtain ⟨c, tail, rfl, hc⟩ := hbuffer
    rw [group, trim_cons (not_isBlank_of_startsName hc).1]
    exact if_neg (List.cons_ne_nil _ _)
  | cons line lines ih =>
    have hne : buffer ≠ [] := by
      obtain ⟨c, tail, rfl, -⟩ := hbuffer
      exact List.cons_ne_nil c tail
    have hglue : glue buffer line = buffer ++ '\n' :: line := if_neg hne
    have hown : ownComment? buffer line = none := if_neg hne
    rw [group, hown, hglue]
    simp only
    split
    · obtain ⟨more, text, ps, hgroup, htext, -⟩ := ih (hbuffer.append ('\n' :: line))
      refine ⟨'\n' :: line ++ more, text, ps, hgroup, by simpa using htext, ?_⟩
      rintro _ _ heq
      cases heq
      exact ⟨more, rfl⟩
    · obtain ⟨c, tail, rfl, hc⟩ := hbuffer
      obtain ⟨piece, pieces, hsplit⟩ : ∃ piece pieces,
          split endsDeclaration (c :: tail ++ '\n' :: line) = (c :: piece) :: pieces :=
        exists_splitFrom_cons (not_isBlank_of_startsName hc).2 start (tail ++ '\n' :: line)
      obtain ⟨others, hothers⟩ := exists_declarationsOf_eq_cons ⟨c, piece, rfl, hc⟩ hsplit
      rw [hothers]
      refine ⟨'\n' :: line, c :: piece, _, rfl, .inr ⟨pieces, hsplit⟩, ?_⟩
      rintro _ _ heq
      cases heq
      exact ⟨[], by simp⟩

/-- A text that is not divided, up to a blank part at its end, is one declaration. -/
lemma declarationsOf_eq_singleton {cs text : List Char} (htrimmed : IsTrimmed text)
    (hcomment : commentText? text = none)
    (hsplit : split endsDeclaration cs = [text] ∨ split endsDeclaration cs = [text, []]) :
    declarationsOf cs = [text] := by
  have hblank : trim [] = [] := rfl
  rw [declarationsOf_eq]
  rcases hsplit with hsplit | hsplit <;>
    simp [hsplit, htrimmed.trim_eq, htrimmed.ne_nil, hcomment, hblank]

end Member

open Member PropType StyleGuide.Bracket Interface

/-- A member whose type is a union of literals between single quotes. -/
structure LiteralMember where
  name : List Char
  isOptional : Bool
  /-- What stands between the quotes of each literal. -/
  contents : List (List Char)

namespace LiteralMember

/-- The type of the member as a text. -/
def type (u : LiteralMember) : List Char := printLiterals u.contents

/-- The member as it is written. -/
def toMember (u : LiteralMember) : Member := ⟨u.name, u.isOptional, u.type, []⟩

/-- The line of the member. -/
def line (u : LiteralMember) : List Char := u.toMember.declaration ++ [';']

/-- The property of the member: an enumeration of its literals. -/
def expected (u : LiteralMember) : String × Bool × Option PropType × String :=
  (String.ofList u.name, !u.isOptional, some (enumOf (u.contents.map literal)), "")

/-- The members that can be written: there is more than one literal, and each is on one line. -/
structure IsWritten (u : LiteralMember) : Prop where
  isName : IsName u.name
  several : 2 ≤ u.contents.length
  oneLine : ∀ x ∈ u.contents, '\n' ∉ x

variable {u : LiteralMember} {cs text : List Char} {ps : List Piece}
  {props : List (String × Bool × Option PropType × String)}

lemma IsWritten.exists_type_eq (h : u.IsWritten) : ∃ x, u.type = quoted x := by
  apply exists_printLiterals_eq
  intro hnil
  have hseveral := h.several
  rw [hnil] at hseveral
  cases hseveral

lemma IsWritten.not_mem (h : u.IsWritten) : '\n' ∉ u.type := by
  refine not_mem_intercalate (by decide) (List.forall_mem_map.2 fun x hx => ?_)
  simp [quoted, h.oneLine x hx]

lemma IsWritten.isLine (h : u.IsWritten) : IsLine u.line :=
  isLine_declaration (m := u.toMember) h.isName h.not_mem

/-! ## What declarations of a member stand for -/

/-- A declaration with all of the type, and nothing else, stands for the property of the member just
when the literals are told apart. -/
lemma declares_cons_iff (h : u.IsWritten)
    (hread : readDeclaration? text = some (u.name, u.isOptional, u.type)) :
    Declares stated (.declaration text :: ps) (u.expected :: props) ↔
      AreToldApart u.contents ∧ Declares stated ps props := by
  have hiff := read_printLiterals_iff h.several
  rw [declares_declaration_cons_iff, hread]
  constructor
  · rintro ⟨name, isOptional, type, hsome, hstated, hps⟩
    cases hsome
    have htype : some (PropType.read u.type) = some (enumOf (u.contents.map literal)) :=
      congrArg (fun p => p.2.2.1) hstated
    exact ⟨hiff.1 (Option.some.inj htype), hps⟩
  · rintro ⟨htold, hps⟩
    refine ⟨_, _, _, rfl, ?_, hps⟩
    rw [type, hiff.2 htold]
    rfl

/-- A declaration with less than the type, or with more, stands for another property. -/
lemma not_declares_cons (h : u.IsWritten) {front : List Char}
    (htext : text = u.name ++ mark u.isOptional ++ '\'' :: front)
    (hink : ink (typeText ('\'' :: front)) ≠ ink u.type) :
    ¬ Declares stated (.declaration (trim text) :: ps) (u.expected :: props) := by
  have hright : trimRight ('\'' :: front) = '\'' :: trimRight front := trimRight_cons rfl front
  have htrim : trim text = u.name ++ mark u.isOptional ++ '\'' :: trimRight front := by
    obtain ⟨c, hc, hblank⟩ := h.isName.isTrimmed.head
    obtain ⟨tail, htail⟩ := List.head?_eq_some_iff.1 hc
    have hleft : trimLeft text = text := by
      rw [htext, htail, List.cons_append, List.cons_append, trimLeft_cons hblank]
    rw [trim, hleft, htext, trimRight_append_cons rfl]
  have hread : readDeclaration? (trim text) =
      some (u.name, u.isOptional, typeText ('\'' :: front)) := by
    rw [htrim, readDeclaration?_append h.isName _ (trimLeft_cons rfl) (List.cons_ne_nil _ _),
      ← hright, typeText_trimRight]
  rw [declares_declaration_cons_iff, hread]
  rintro ⟨name, isOptional, type, hsome, hstated, -⟩
  cases hsome
  have htype : some (PropType.read (typeText ('\'' :: front))) =
      some (enumOf (u.contents.map literal)) :=
    congrArg (fun p => p.2.2.1) hstated
  obtain ⟨rest, hrest⟩ := exists_typeText_eq_cons front
  have hhead : trim (typeText ('\'' :: front)) = '\'' :: trimRight rest := by
    rw [hrest, trim_cons rfl]
  exact hink (ink_of_read_eq_enumOf hhead (Option.some.inj htype))

/-! ## The line of a member -/

lemma line_eq (u : LiteralMember) : u.line = u.name ++ mark u.isOptional ++ (u.type ++ [';']) := by
  simp [line, toMember, declaration]

lemma IsWritten.startsLikeName (h : u.IsWritten) (cs : List Char) :
    StartsLikeName (u.name ++ mark u.isOptional ++ cs) :=
  (h.isName.startsLikeName.append _).append cs

lemma IsWritten.commentText?_line (h : u.IsWritten) : commentText? u.line = none :=
  (commentText?_declaration (m := u.toMember) h.isName [';']).1

lemma IsWritten.depthAfter_line (h : u.IsWritten) : depthAfter u.line = depthAfter u.type := by
  obtain ⟨x, hx⟩ := h.exists_type_eq
  have hhead : (u.type ++ [';']).head? ≠ some '>' := by simp [hx, quoted]
  rw [line_eq, (split_name_append h.isName u.isOptional hhead).2, depthAfter_eq, after_append,
    after_cons, after_nil, next_depth_of_not_isBracket _ rfl, ← depthAfter_eq]

/-- With all of the type, with or without the separator behind it, the member is read back. -/
lemma IsWritten.readDeclaration? (h : u.IsWritten) (hcs : cs = u.type ∨ cs = u.type ++ [';']) :
    IsTrimmed (u.name ++ mark u.isOptional ++ cs) ∧
      Member.readDeclaration? (u.name ++ mark u.isOptional ++ cs) =
        some (u.name, u.isOptional, u.type) := by
  obtain ⟨x, hx⟩ := h.exists_type_eq
  obtain ⟨htrimmed, htype⟩ : IsTrimmed cs ∧ typeText cs = u.type := by
    rw [hx] at hcs ⊢
    rcases hcs with rfl | rfl
    · exact ⟨isTrimmed_quoted x, (typeText_quoted x).1⟩
    · have hends : IsTrimmed ('\'' :: (x ++ ['\''] ++ [';'])) := .of_ends rfl rfl
      exact ⟨hends, (typeText_quoted x).2⟩
  refine ⟨h.isName.isTrimmed.append htrimmed, ?_⟩
  rw [readDeclaration?_append h.isName _ htrimmed.trimLeft_eq htrimmed.ne_nil, htype]

/-- The line of a member whose type is not cut is one declaration. -/
lemma exists_declarationsOf_line (h : u.IsWritten) (hclean : Clean endsDeclaration u.type) :
    ∃ text, declarationsOf u.line = [text] ∧
      Member.readDeclaration? text = some (u.name, u.isOptional, u.type) := by
  obtain ⟨x, hx⟩ := h.exists_type_eq
  have hhead : (u.type ++ [';']).head? ≠ some '>' := by simp [hx, quoted]
  have hsplit := (split_name_append h.isName u.isOptional hhead).1
  rw [← line_eq] at hsplit
  by_cases hdepth : depthAfter u.type = 0
  · have hdepth : (start.after u.type).depth = 0 := hdepth
    have htype : split endsDeclaration (u.type ++ [';']) = [u.type, []] := by
      rw [split, splitFrom_append hclean, splitFrom_cons hdepth rfl]
      simp [prepend, splitFrom]
    obtain ⟨htrimmed, hread⟩ := h.readDeclaration? (.inl rfl)
    have hcomment := (h.startsLikeName u.type).commentText?_eq
    refine ⟨_, declarationsOf_eq_singleton htrimmed hcomment (.inr ?_), hread⟩
    rw [hsplit, htype, prepend]
  · have htype : split endsDeclaration (u.type ++ [';']) = [u.type ++ [';']] :=
      splitFrom_eq_singleton (along_append.2 ⟨hclean, fun hzero => absurd hzero hdepth, trivial⟩)
    obtain ⟨htrimmed, hread⟩ := h.readDeclaration? (.inr rfl)
    have hcomment := (h.startsLikeName (u.type ++ [';'])).commentText?_eq
    refine ⟨_, declarationsOf_eq_singleton htrimmed hcomment (.inl ?_), hread⟩
    rw [hsplit, htype, prepend]

/-- A line that leaves no bracket open is read by itself: it stands for the property of its member
just when the literals are told apart and no separator cuts one of them. -/
lemma declares_group_of_closed (h : u.IsWritten) (hclosed : depthAfter u.type ≤ 0)
    (rest : List (List Char)) :
    Declares stated (group [] (u.line :: rest)) (u.expected :: props) ↔
      AreToldApart u.contents ∧ Clean endsDeclaration u.type ∧
        Declares stated (group [] rest) props := by
  have hgroup : group [] (u.line :: rest) =
      (declarationsOf u.line).map .declaration ++ group [] rest := by
    have hdepth : depthAfter u.line ≤ 0 := by rwa [h.depthAfter_line]
    rw [group_line (fun _ => hdepth), linePieces, h.commentText?_line]
  obtain ⟨x, hx⟩ := h.exists_type_eq
  rw [hgroup]
  by_cases hclean : Clean endsDeclaration u.type
  · obtain ⟨text, hdeclarations, hread⟩ := exists_declarationsOf_line h hclean
    rw [hdeclarations, List.map_singleton, List.singleton_append, declares_cons_iff h hread]
    simp only [hclean, true_and]
  · have hhead : (u.type ++ [';']).head? ≠ some '>' := by simp [hx, quoted]
    have hsplit := (split_name_append h.isName u.isOptional hhead).1
    obtain ⟨front, pieces, hcut, hink⟩ := exists_split_of_not_clean (hx ▸ hclean) [';']
    rw [← line_eq, hx, hcut, prepend] at hsplit
    obtain ⟨others, hothers⟩ := exists_declarationsOf_eq_cons (h.startsLikeName _) hsplit
    rw [hothers, List.map_cons, List.cons_append]
    refine iff_of_false (not_declares_cons h rfl (hx ▸ hink)) ?_
    rintro ⟨-, hclean', -⟩
    exact hclean hclean'

/-- A line that leaves a bracket open is read together with the lines below, of which there must be
none. -/
lemma declares_group_of_open (h : u.IsWritten) (hopen : 0 < depthAfter u.type)
    {rest : List (List Char)} (hrest : ∀ l ∈ rest, StartsLikeName l) :
    Declares stated (group [] (u.line :: rest)) (u.expected :: props) ↔
      AreToldApart u.contents ∧ rest = [] ∧ Declares stated (group [] rest) props := by
  obtain ⟨x, hx⟩ := h.exists_type_eq
  have hstarts : StartsLikeName u.line := line_eq u ▸ h.startsLikeName _
  have hgroup : group [] (u.line :: rest) = group u.line rest := by
    have hown : ownComment? [] u.line = none := h.commentText?_line
    have hglue : glue [] u.line = u.line := rfl
    rw [group, hown, hglue]
    exact if_pos (by rwa [h.depthAfter_line])
  rw [hgroup]
  cases rest with
  | nil =>
    have hread := (h.readDeclaration? (.inr rfl)).2
    rw [← line_eq] at hread
    have hline : group u.line [] = [.declaration u.line] := by
      rw [group, h.isLine.isTrimmed.trim_eq, if_neg h.isLine.isTrimmed.ne_nil]
    rw [hline, declares_cons_iff h hread]
    simp [group, trim, trimLeft, trimRight]
  | cons l rest =>
    obtain ⟨more, text, ps, hpieces, htext, hmore⟩ := exists_group_eq_cons hstarts (l :: rest)
    obtain ⟨behind, rfl⟩ := hmore l rest rfl
    obtain ⟨c, tail, rfl, hc⟩ := hrest l List.mem_cons_self
    -- All of the type and the start of the next line are read together, or the type is cut.
    have hlines : u.line ++ ('\n' :: (c :: tail) ++ behind) =
        u.name ++ mark u.isOptional ++ (quoted x ++ ';' :: '\n' :: c :: (tail ++ behind)) := by
      simp [line_eq, hx]
    rw [hlines] at htext
    rw [hpieces]
    refine iff_of_false ?_ (by simp)
    rcases htext with htext | ⟨pieces, hsplit⟩
    · exact not_declares_cons h htext (hx ▸ ink_typeText_ne x hc (tail ++ behind))
    · have hhead : (quoted x ++ ';' :: '\n' :: c :: (tail ++ behind)).head? ≠ some '>' := by
        simp [quoted]
      rw [(split_name_append h.isName u.isOptional hhead).1] at hsplit
      obtain ⟨front, others, hcut, hink⟩ : ∃ front others,
          split endsDeclaration (quoted x ++ ';' :: '\n' :: c :: (tail ++ behind)) =
            ('\'' :: front) :: others ∧ ink (typeText ('\'' :: front)) ≠ ink (quoted x) := by
        by_cases hclean : Clean endsDeclaration (quoted x)
        · exact exists_split_of_open hclean (hx ▸ hopen) hc _
        · exact exists_split_of_not_clean hclean _
      rw [hcut, prepend] at hsplit
      exact not_declares_cons h (List.cons.inj hsplit).1.symm (hx ▸ hink)

/-- Members on their lines stand for their properties, one for one, just when the literals of each
are told apart, no separator cuts one of them on a line that leaves no bracket open, and only the
last line leaves one open. -/
theorem declares_group_iff {us : List LiteralMember} (h : ∀ u ∈ us, u.IsWritten) :
    Declares stated (group [] (us.map line)) (us.map expected) ↔
      (∀ u ∈ us, AreToldApart u.contents ∧
        (depthAfter u.type ≤ 0 → Clean endsDeclaration u.type)) ∧
          ∀ u ∈ us.dropLast, depthAfter u.type ≤ 0 := by
  induction us with
  | nil => exact iff_of_true ⟨[], rfl, rfl⟩ ⟨by simp, by simp⟩
  | cons u us ih =>
    have hu := h u List.mem_cons_self
    have hus := ih fun v hv => h v (List.mem_cons_of_mem _ hv)
    have hlines : ∀ l ∈ us.map line, StartsLikeName l :=
      List.forall_mem_map.2 fun v hv => by
        rw [line_eq]
        exact (h v (List.mem_cons_of_mem _ hv)).startsLikeName _
    rw [List.map_cons, List.map_cons, List.forall_mem_cons]
    by_cases hopen : 0 < depthAfter u.type
    · have hclosed : ¬ depthAfter u.type ≤ 0 := Int.not_le.2 hopen
      rw [declares_group_of_open hu hopen hlines, hus]
      cases us with
      | nil => simp [hclosed]
      | cons v vs => simp [hclosed]
    · have hclosed : depthAfter u.type ≤ 0 := Int.not_lt.1 hopen
      rw [declares_group_of_closed hu hclosed, hus]
      cases us with
      | nil => simp [hclosed]
      | cons v vs =>
        rw [List.dropLast_cons_cons, List.forall_mem_cons (a := u)]
        simp only [hclosed, forall_const, true_and]
        tauto

end LiteralMember

namespace Interface

open LiteralMember

variable {component : List Char} {us : List LiteralMember} {lines : List (Nat × List Char)}

/-- The lines of members are found, however far they are indented. -/
lemma exists_extract_literalMembers_iff (hcomponent : ∀ c ∈ component, isWord c = true)
    (h : ∀ u ∈ us, u.IsWritten) (hlines : lines.map (·.2) = us.map line) (rest : List Char)
    (props : List (String × Bool × Option PropType × String)) :
    (∃ doc, extract (String.ofList (printLines component (lines.map indented) ++ rest)) = .ok doc ∧
        doc.props.map stated = props) ↔ Declares stated (group [] (us.map line)) props := by
  have hline : ∀ l ∈ lines.map (·.2), IsLine l := by
    rw [hlines]
    exact List.forall_mem_map.2 fun u hu => (h u hu).isLine
  rw [exists_extract_indented_iff hcomponent hline, hlines]

/-- Each member is extracted as the enumeration of its literals just when no literal has a bar or an
arrow outside of brackets, brackets are closed again behind all literals of a member but the last
one, a member that leaves a bracket open is the last one, and no separator stands outside of
brackets in any other member. -/
theorem stated_extract_literalMembers_iff (hcomponent : ∀ c ∈ component, isWord c = true)
    (h : ∀ u ∈ us, u.IsWritten) (hlines : lines.map (·.2) = us.map line) (rest : List Char) :
    (∃ doc, extract (String.ofList (printLines component (lines.map indented) ++ rest)) = .ok doc ∧
        doc.props.map stated = us.map expected) ↔
      (∀ u ∈ us, AreToldApart u.contents ∧
        (depthAfter u.type ≤ 0 → Clean endsDeclaration u.type)) ∧
          ∀ u ∈ us.dropLast, depthAfter u.type ≤ 0 := by
  rw [exists_extract_literalMembers_iff hcomponent h hlines, declares_group_iff h]

/-- A call, and whether its parenthesis is open. -/
def callMembers : List LiteralMember :=
  [⟨"call".toList, false, ["f(a; b)".toList, "a - b".toList]⟩,
    ⟨"side".toList, true, ["none".toList, "(".toList]⟩]

/-- Both members of
```
interface CallProps {
  call: 'f(a; b)' | 'a - b';
  side?: 'none' | '(';
}
```
are extracted. -/
theorem stated_extract_literalMembers_call :
    let lines := [(2, "call: 'f(a; b)' | 'a - b';".toList), (2, "side?: 'none' | '(';".toList)]
    ∃ doc, extract (String.ofList (printLines "Call".toList (lines.map indented) ++ ['\n'])) =
        .ok doc ∧
      doc.props.map stated =
        [("call", true, some (.enumOf [⟨"'f(a; b)'", false⟩, ⟨"'a - b'", false⟩]), ""),
          ("side", false, some (.enumOf [⟨"'none'", false⟩, ⟨"'('", false⟩]), "")] := by
  have hcomponent : ∀ c ∈ "Call".toList, isWord c = true := List.all_eq_true.1 (by decide)
  have hwritten : ∀ u ∈ callMembers, u.IsWritten :=
    List.forall_mem_cons.2 ⟨⟨by decide, by decide, by decide⟩,
      List.forall_mem_singleton.2 ⟨by decide, by decide, by decide⟩⟩
  intro lines
  have hlines : lines.map (·.2) = callMembers.map line := by decide
  exact (stated_extract_literalMembers_iff hcomponent hwritten hlines ['\n']).2
    ⟨by decide, by decide⟩

/-- A comparison. -/
def compareMember : LiteralMember := ⟨"op".toList, false, ["<".toList, ">".toList]⟩

/-- The literals of the member in
```
interface CompareProps {
  op: '<' | '>';
}
```
look like a pair of brackets, so its type is not read as an enumeration. -/
theorem extract_compareMember :
    let lines := [(2, compareMember.line)]
    ∃ doc, extract (String.ofList (printLines "Compare".toList (lines.map indented) ++ ['\n'])) =
        .ok doc ∧
      doc.props.map stated = [("op", true, some (.primitive "'<' | '>'"), "")] := by
  have hcomponent : ∀ c ∈ "Compare".toList, isWord c = true := List.all_eq_true.1 (by decide)
  have hwritten : compareMember.IsWritten := ⟨by decide, by decide, by decide⟩
  have hgroup : group [] ([compareMember].map line) =
      [.declaration "op: '<' | '>'".toList] := by decide
  have hread : PropType.read "'<' | '>'".toList = .primitive "'<' | '>'" :=
    read_quoted_of_alternatives (x := "<' | '>".toList) (by decide) (by decide)
  refine (exists_extract_literalMembers_iff hcomponent (List.forall_mem_singleton.2 hwritten) rfl
    ['\n'] _).2 ?_
  rw [hgroup, declares_declaration_cons_iff]
  refine ⟨"op".toList, false, "'<' | '>'".toList, by decide, ?_, ⟨[], rfl, rfl⟩⟩
  rw [hread]
  rfl

end Interface

end StyleGuide
