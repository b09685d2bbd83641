import Mathlib.Algebra.GroupWithZero.Nat
import Mathlib.Data.List.Forall2
import StyleGuide.Proofs.Props.Interface

/-!
# Comments behind members

A comment behind the separator of a member is read as declarations like any other text, and only the
parts of it that start like a comment are left out: the first one, and those behind a separator that
start like one themselves. So a comment that leaves no bracket open is left out just when all its
parts are, and otherwise no interface keeps its properties.

## Main definitions

* `Member.trailing`: what stands behind the separator of a member.
* `Member.IsDropped`: all parts of a comment are left out.
* `Interface.printCommented`: the source of an interface with comments behind its members.

## Main results

* `Member.declarationsOf_append_trailing`: the declarations on the line of a member.
* `Interface.stated_extract_printCommented_iff`: the comments that do not change the properties.
-/

namespace StyleGuide

namespace Member

open StyleGuide.Bracket

/-! ## Blanks at the end of a line -/

/-- Blanks at the end of a line are in none of its declarations. -/
lemma declarationsOf_trimRight (cs : List Char) :
    declarationsOf (trimRight cs) = declarationsOf cs := by
  obtain ⟨bs, hblank, hcs⟩ := exists_eq_trimRight_append cs
  have halong : Along (fun d c => d = 0 → endsDeclaration c = false)
      (start.after (trimRight cs)) bs :=
    along_of_forall fun b hb _ _ => endsDeclaration_eq_false_of_isBlank b (hblank b hb)
  obtain ⟨front, last, hfront, hboth⟩ := exists_splitFrom_append halong
  rw [← hcs] at hboth
  rw [declarationsOf_eq, declarationsOf_eq, split, split, hfront, hboth]
  simp only [List.map_append, List.map_cons, List.map_nil, trim_append_right hblank]

lemma depthAfter_trimRight (cs : List Char) : depthAfter (trimRight cs) = depthAfter cs := by
  obtain ⟨bs, hblank, hcs⟩ := exists_eq_trimRight_append cs
  have hbalanced := balanced_of_isBlank hblank
  conv_rhs => rw [hcs, depthAfter_eq, after_append, hbalanced.after_depth, ← depthAfter_eq]

/-! ## What stands behind a separator -/

/-- What stands behind the separator of a member: nothing, or a comment. -/
def trailing : Option (List Char) → List Char
  | none => []
  | some text => " // ".toList ++ text

/-- All parts of a comment between separators outside of brackets are left out: they are blank, or
start like a comment. -/
def IsDropped (text : List Char) : Prop :=
  ∀ part ∈ split endsDeclaration (trailing (some text)),
    trim part = [] ∨ (commentText? (trim part)).isSome

instance {text : List Char} : Decidable (IsDropped text) :=
  inferInstanceAs (Decidable (∀ part ∈ split endsDeclaration (trailing (some text)),
    trim part = [] ∨ (commentText? (trim part)).isSome))

/-- The texts of comments that end with their line: it is one line, and no bracket is open behind
it. -/
structure EndsWithLine (text : List Char) : Prop where
  oneLine : '\n' ∉ text
  closed : depthAfter (trailing (some text)) ≤ 0

variable {m : Member} {comment : Option (List Char)}

lemma endsWithLine_trailing (h : ∀ text ∈ comment, EndsWithLine text) :
    '\n' ∉ trailing comment ∧ depthAfter (trailing comment) ≤ 0 := by
  cases comment with
  | none => decide
  | some text =>
    obtain ⟨hline, hclosed⟩ := h text rfl
    exact ⟨by simp [trailing, hline], hclosed⟩

lemma declarationsOf_trailing_none : declarationsOf (trailing none) = [] := rfl

lemma isDropped_iff {text : List Char} :
    IsDropped text ↔ declarationsOf (trailing (some text)) = [] := by
  rw [IsDropped, declarationsOf_eq, List.filter_eq_nil_iff, List.forall_mem_map]
  refine forall₂_congr fun part _ => ?_
  cases commentText? (trim part) <;> simp

lemma head?_trailing (comment : Option (List Char)) : (trailing comment).head? ≠ some '>' := by
  cases comment <;> simp [trailing]

/-- A separator ends a declaration, whatever stands behind it. -/
lemma declarationsOf_append_cons {front rest : List Char} {s : Char}
    (hfront : IsPart endsDeclaration front) (hcomment : commentText? front = none)
    (hs : endsDeclaration s = true) (hrest : rest.head? ≠ some '>') :
    declarationsOf (front ++ s :: rest) = front :: declarationsOf rest := by
  have hdepth : (start.after front).depth = 0 := hfront.balanced.closes
  have hbracket : isBracket s = false := isBracket_eq_false_of (by decide) hs
  have hnext : ((start.after front).next s).depth = 0 :=
    (next_depth_of_not_isBracket _ hbracket).trans hdepth
  have hsplit : split endsDeclaration (front ++ s :: rest) =
      front :: split endsDeclaration rest := by
    rw [split, splitFrom_append hfront.clean, splitFrom_cons hdepth hs,
      splitFrom_eq_split hrest hnext, prepend, List.append_nil]
  rw [declarationsOf_eq, hsplit, List.map_cons, hfront.isTrimmed.trim_eq, List.filter_cons_of_pos,
    ← declarationsOf_eq]
  simp [hfront.isTrimmed.ne_nil, hcomment]

/-- The declarations on the line of a member: its own, and those in its comment. -/
theorem declarationsOf_append_trailing (h : m.IsWritable) (comment : Option (List Char)) :
    declarationsOf (m.declaration ++ ';' :: trailing comment) =
      m.declaration :: declarationsOf (trailing comment) := by
  have hcomment := (h.commentText?_eq_none []).1
  rw [List.append_nil] at hcomment
  exact declarationsOf_append_cons h.isPart hcomment rfl (head?_trailing comment)

lemma depthAfter_append_trailing (h : m.IsWritable) (comment : Option (List Char)) :
    depthAfter (m.declaration ++ ';' :: trailing comment) = depthAfter (trailing comment) := by
  have hassoc : m.declaration ++ ';' :: trailing comment =
      m.declaration ++ [';'] ++ trailing comment := by simp
  rw [hassoc, depthAfter_eq, after_append, after_depth_eq (head?_trailing comment),
    ← depthAfter_eq, h.depthAfter_eq, Int.zero_add]

/-! ## The lines of a member with a comment behind it -/

/-- The lines of a member with a comment behind its declaration. -/
def commentedLines (layout : Layout) (mc : Member × Option (List Char)) : List (List Char) :=
  (mc.1.comments.map fun text => indented (layout.comments, commentLine text)) ++
    [indented (layout.declaration, mc.1.declaration ++ ';' :: trailing mc.2)]

lemma commentedLines_none (layout : Layout) (m : Member) :
    commentedLines layout (m, none) = (m.linesOf layout).map indented := by
  simp [commentedLines, linesOf, trailing]

/-- The line of a member does not lose its separator when it is trimmed. -/
lemma trim_declaration (h : m.IsWritable) (comment : Option (List Char)) :
    trim (m.declaration ++ ';' :: trailing comment) =
        trimRight (m.declaration ++ ';' :: trailing comment) ∧
      trimRight (m.declaration ++ ';' :: trailing comment) =
        m.declaration ++ ';' :: trimRight (trailing comment) := by
  obtain ⟨c, hc, hblank⟩ := h.isPart.isTrimmed.head
  refine ⟨?_, trimRight_append_cons rfl _ _⟩
  obtain ⟨tail, htail⟩ := List.head?_eq_some_iff.1 hc
  rw [trim, htail, List.cons_append, trimLeft_cons hblank]

lemma isBodyLine_declaration (h : m.IsWritable) (hline : '\n' ∉ trailing comment) :
    IsBodyLine (m.declaration ++ ';' :: trailing comment) := by
  obtain ⟨htrim, hright⟩ := trim_declaration h comment
  refine ⟨by simp [h.not_mem, hline], ?_, ?_, ?_⟩
  · have hclosing := h.isLine.notClosing
    obtain ⟨c, tail, hname⟩ := List.exists_cons_of_ne_nil h.isPart.isTrimmed.ne_nil
    rw [hname] at hclosing ⊢
    exact hclosing
  · rw [htrim, hright]
    simp
  · rw [htrim, hright]
    exact (h.commentText?_eq_none _).2

lemma isBodyLine_of_mem_commentedLines {layout : Layout} {mc : Member × Option (List Char)}
    (h : mc.1.IsDocumented) (hcomment : '\n' ∉ trailing mc.2) :
    ∀ line ∈ commentedLines layout mc, IsBodyLine line := by
  intro line hline
  rcases List.mem_append.1 hline with hline | hline
  · obtain ⟨text, htext, rfl⟩ := List.mem_map.1 hline
    exact isBodyLine_indented (h.isComment text htext).isLine.isBodyLine
  · cases List.mem_singleton.1 hline
    exact isBodyLine_indented (isBodyLine_declaration h.toIsWritable hcomment)

/-- The line of a member is read as its declaration and those in the comment behind it. -/
lemma linePieces_trim_declaration (h : m.IsWritable) (comment : Option (List Char)) :
    linePieces (trim (m.declaration ++ ';' :: trailing comment)) =
      .declaration m.declaration :: (declarationsOf (trailing comment)).map .declaration := by
  obtain ⟨htrim, hright⟩ := trim_declaration h comment
  have hnone : commentText? (trimRight (m.declaration ++ ';' :: trailing comment)) = none := by
    rw [hright]
    exact (h.commentText?_eq_none _).1
  rw [htrim, linePieces, hnone, declarationsOf_trimRight, declarationsOf_append_trailing h]
  rfl

/-- The pieces of a member with a comment behind it. -/
def commentedPieces (mc : Member × Option (List Char)) : List Piece :=
  piecesOf mc.1 ++ (declarationsOf (trailing mc.2)).map .declaration

lemma flatMap_linePieces_commentedLines {layout : Layout} {mc : Member × Option (List Char)}
    (h : mc.1.IsDocumented) :
    ((commentedLines layout mc).map trim).flatMap linePieces = commentedPieces mc := by
  have hcomments : (mc.1.comments.map fun text => indented (layout.comments, commentLine text)).map
      trim = mc.1.comments.map commentLine := by
    rw [List.map_map]
    refine List.map_congr_left fun text htext => ?_
    rw [Function.comp_apply, trim_indented, (h.isComment text htext).isLine.isTrimmed.trim_eq]
  rw [commentedLines, List.map_append, List.flatMap_append, hcomments,
    flatMap_linePieces_comments h.isComment, List.map_singleton, List.flatMap_singleton,
    trim_indented, linePieces_trim_declaration h.toIsWritable mc.2, commentedPieces,
    piecesOf, List.append_assoc, List.singleton_append]

/-- Lines that leave no bracket open: the comments of a member, and a comment behind it that does
not open one. -/
lemma depthAfter_of_mem_commentedLines {layout : Layout} {mc : Member × Option (List Char)}
    (h : mc.1.IsDocumented) (hopen : depthAfter (trailing mc.2) ≤ 0) :
    ∀ line ∈ (commentedLines layout mc).map trim,
      commentText? line = none → depthAfter line ≤ 0 := by
  refine List.forall_mem_map.2 fun line hline hnone => ?_
  rcases List.mem_append.1 hline with hline | hline
  · obtain ⟨text, htext, rfl⟩ := List.mem_map.1 hline
    have hcomment := h.isComment text htext
    rw [trim_indented, hcomment.isLine.isTrimmed.trim_eq,
      commentText?_commentLine hcomment] at hnone
    cases hnone
  · cases List.mem_singleton.1 hline
    rwa [trim_indented, (trim_declaration h.toIsWritable mc.2).1, depthAfter_trimRight,
      depthAfter_append_trailing h.toIsWritable]

/-- Members with comments behind them are grouped line by line. -/
theorem group_commentedLines (layout : Layout) {mcs : List (Member × Option (List Char))}
    (h : ∀ mc ∈ mcs, mc.1.IsDocumented) (hopen : ∀ mc ∈ mcs, depthAfter (trailing mc.2) ≤ 0) :
    group [] ((mcs.flatMap (commentedLines layout)).map trim) = mcs.flatMap commentedPieces := by
  rw [group_eq_flatMap]
  · clear hopen
    induction mcs with
    | nil => rfl
    | cons mc mcs ih =>
      rw [List.flatMap_cons, List.map_append, List.flatMap_append, List.flatMap_cons,
        flatMap_linePieces_commentedLines (h mc List.mem_cons_self),
        ih fun x hx => h x (List.mem_cons_of_mem _ hx)]
  · intro line hline
    rw [List.map_flatMap] at hline
    obtain ⟨mc, hmc, hmem⟩ := List.mem_flatMap.1 hline
    exact depthAfter_of_mem_commentedLines (h mc hmc) (hopen mc hmc) line hmem

lemma declarationTexts_commentedPieces (mc : Member × Option (List Char)) :
    declarationTexts (commentedPieces mc) =
      mc.1.declaration :: declarationsOf (trailing mc.2) := by
  simp [declarationTexts, commentedPieces, piecesOf]

/-- There are more declarations than members where one is in a comment. -/
lemma length_declarationTexts (mcs : List (Member × Option (List Char))) :
    (declarationTexts (mcs.flatMap commentedPieces)).length =
      mcs.length + (mcs.map fun mc => (declarationsOf (trailing mc.2)).length).sum := by
  have hflat : declarationTexts (mcs.flatMap commentedPieces) =
      mcs.flatMap fun mc => mc.1.declaration :: declarationsOf (trailing mc.2) := by
    rw [declarationTexts_flatMap]
    exact List.flatMap_congr fun mc _ => declarationTexts_commentedPieces mc
  rw [hflat]
  clear hflat
  induction mcs with
  | nil => rfl
  | cons mc mcs ih =>
    simp only [List.flatMap_cons, List.length_append, ih, List.length_cons, List.map_cons,
      List.sum_cons]
    omega

/-- Comments with nothing but parts that are left out change nothing. -/
lemma flatMap_commentedPieces {mcs : List (Member × Option (List Char))}
    (h : ∀ mc ∈ mcs, declarationsOf (trailing mc.2) = []) :
    mcs.flatMap commentedPieces = (mcs.map (·.1)).flatMap piecesOf := by
  rw [List.flatMap_map]
  refine List.flatMap_congr fun mc hmc => ?_
  rw [commentedPieces, h mc hmc, List.map_nil, List.append_nil]

/-- The comments of all members are left out just when none of them holds a declaration. -/
lemma forall_isDropped_iff {mcs : List (Member × Option (List Char))} :
    (∀ mc ∈ mcs, ∀ text ∈ mc.2, IsDropped text) ↔
      ∀ mc ∈ mcs, declarationsOf (trailing mc.2) = [] := by
  refine forall₂_congr fun mc _ => ?_
  obtain ⟨m, _ | text⟩ := mc
  · simp [declarationsOf_trailing_none]
  · simp [isDropped_iff]

end Member

namespace Interface

open Member StyleGuide.Bracket

/-- The source of an interface with comments behind its members. -/
def printCommented (layout : Layout) (component : List Char)
    (mcs : List (Member × Option (List Char))) : List Char :=
  printLines component (mcs.flatMap (commentedLines layout))

variable {layout : Layout} {component : List Char} {mcs : List (Member × Option (List Char))}

/-- Without comments it is the source of an interface. -/
lemma printCommented_none (layout : Layout) (component : List Char) (ms : List Member) :
    printCommented layout component (ms.map (·, none)) = print layout component ms := by
  have hlines : (ms.map (·, none)).flatMap (commentedLines layout) =
      (ms.flatMap (linesOf layout)).map indented := by
    rw [List.flatMap_map, List.map_flatMap]
    exact List.flatMap_congr fun m _ => commentedLines_none layout m
  rw [printCommented, hlines]
  rfl

/-- What the members of a source with comments say about their properties. -/
lemma exists_extract_printCommented_iff (layout : Layout)
    (hcomponent : ∀ c ∈ component, isWord c = true) (h : ∀ mc ∈ mcs, mc.1.IsDocumented)
    (hcomments : ∀ mc ∈ mcs, ∀ text ∈ mc.2, EndsWithLine text) (rest : List Char)
    (props : List (String × Bool × Option PropType × String)) :
    (∃ doc, extract (String.ofList (printCommented layout component mcs ++ rest)) = .ok doc ∧
        doc.props.map stated = props) ↔ Declares stated (mcs.flatMap commentedPieces) props := by
  have hlines : ∀ line ∈ mcs.flatMap (commentedLines layout), IsBodyLine line := by
    intro line hmem
    obtain ⟨mc, hmc, hmem⟩ := List.mem_flatMap.1 hmem
    have hline := (endsWithLine_trailing (hcomments mc hmc)).1
    exact isBodyLine_of_mem_commentedLines (h mc hmc) hline line hmem
  have hopen : ∀ mc ∈ mcs, depthAfter (trailing mc.2) ≤ 0 := fun mc hmc =>
    (endsWithLine_trailing (hcomments mc hmc)).2
  rw [← group_commentedLines layout h hopen]
  exact exists_extract_iff stated_default hcomponent hlines rest props

/-- Documented members are extracted without comments behind them. -/
lemma exists_extract_print (layout : Layout) {ms : List Member}
    (hcomponent : ∀ c ∈ component, isWord c = true) (h : ∀ m ∈ ms, m.IsDocumented)
    (rest : List Char) :
    ∃ doc, extract (String.ofList (print layout component ms ++ rest)) = .ok doc ∧
      doc.props.map stated = ms.map fun m => stated (PropType.ofMember m (.read m.type)) := by
  have hread := ofPieces_flatMap fun m hm => (h m hm).toIsWritable
  have hpieces : (ms.map (·, none)).flatMap commentedPieces = ms.flatMap piecesOf := by
    rw [flatMap_commentedPieces (by simp [declarationsOf_trailing_none])]
    simp [Function.comp_def]
  rw [← printCommented_none, exists_extract_printCommented_iff layout hcomponent (by simpa using h)
    (by simp), hpieces]
  exact ⟨ms, hread, rfl⟩

/-- Comments behind members change nothing that the members say just when all their parts between
separators outside of brackets are left out. A comment that does not end with its line is another
matter: the lines below belong to it. -/
theorem stated_extract_printCommented_iff (layout : Layout)
    (hcomponent : ∀ c ∈ component, isWord c = true) (h : ∀ mc ∈ mcs, mc.1.IsDocumented)
    (hcomments : ∀ mc ∈ mcs, ∀ text ∈ mc.2, EndsWithLine text) (rest : List Char) :
    ∃ doc, extract (String.ofList (print layout component (mcs.map (·.1)) ++ rest)) = .ok doc ∧
      ((∃ doc', extract (String.ofList (printCommented layout component mcs ++ rest)) = .ok doc' ∧
          doc'.props.map stated = doc.props.map stated) ↔
        ∀ mc ∈ mcs, ∀ text ∈ mc.2, IsDropped text) := by
  have hdocumented : ∀ m ∈ mcs.map (·.1), m.IsDocumented := List.forall_mem_map.2 h
  have hread := ofPieces_flatMap fun m hm => (hdocumented m hm).toIsWritable
  obtain ⟨doc, hdoc, hstated⟩ := exists_extract_print layout hcomponent hdocumented rest
  refine ⟨doc, hdoc, ?_⟩
  rw [exists_extract_printCommented_iff layout hcomponent h hcomments, forall_isDropped_iff,
    hstated]
  constructor
  · -- There is one property a declaration, so no comment holds a declaration.
    rintro ⟨ms, hms, hprops⟩
    have hlength := (forall₂_of_ofPieces hms).length_eq
    rw [length_declarationTexts] at hlength
    have hcount : ms.length = mcs.length := by simpa using congrArg List.length hprops
    have hsum : (mcs.map fun mc => (declarationsOf (trailing mc.2)).length).sum = 0 := by omega
    intro mc hmc
    have hzero := List.sum_eq_zero_iff_forall_eq_nat.1 hsum _ (List.mem_map_of_mem hmc)
    exact List.length_eq_zero_iff.1 hzero
  · intro hdropped
    exact ⟨mcs.map (·.1), by rw [flatMap_commentedPieces hdropped, hread], rfl⟩

lemma labelMember_isDocumented : (labelMember []).IsDocumented :=
  ⟨labelMember_isWritable [], by simp [labelMember]⟩

/-- The comment in
```
interface CardProps {
  label: string; // shown; // twice
}
```
is left out, since its second part starts like a comment too. -/
theorem stated_extract_printCommented_labelMember :
    ∃ doc,
      extract (String.ofList (print ⟨2, 2⟩ "Card".toList [labelMember []] ++ ['\n'])) = .ok doc ∧
      ∃ doc', extract (String.ofList (printCommented ⟨2, 2⟩ "Card".toList
          [(labelMember [], some "shown; // twice".toList)] ++ ['\n'])) = .ok doc' ∧
        doc'.props.map stated = doc.props.map stated := by
  have hcomponent : ∀ c ∈ "Card".toList, isWord c = true := List.all_eq_true.1 (by decide)
  have hcomments : ∀ mc ∈ [(labelMember [], some "shown; // twice".toList)],
      ∀ text ∈ mc.2, EndsWithLine text := by
    simp only [List.forall_mem_singleton, Option.mem_def, Option.some.injEq, forall_eq']
    exact ⟨by decide, by decide⟩
  obtain ⟨doc, hdoc, hiff⟩ := stated_extract_printCommented_iff ⟨2, 2⟩ hcomponent
    (List.forall_mem_singleton.2 labelMember_isDocumented) hcomments ['\n']
  refine ⟨doc, hdoc, hiff.2 ?_⟩
  simp only [List.forall_mem_singleton, Option.mem_def, Option.some.injEq, forall_eq']
  decide

/-- The second part of the comment in
```
interface CardProps {
  label: string; // shown, in bold
}
```
is read as a declaration, while there is a property without the comment. -/
theorem extract_labelMember_shown :
    (∃ doc,
      extract (String.ofList (print ⟨2, 2⟩ "Card".toList [labelMember []] ++ ['\n'])) = .ok doc ∧
      doc.props.map stated = [("label", true, some (.primitive "string"), "")]) ∧
    extract (String.ofList (printCommented ⟨2, 2⟩ "Card".toList
      [(labelMember [], some "shown, in bold".toList)] ++ ['\n'])) =
        .error (.invalidDeclaration "in bold") := by
  have hcomponent : ∀ c ∈ "Card".toList, isWord c = true := List.all_eq_true.1 (by decide)
  constructor
  · have hread : PropType.read "string".toList = .primitive "string" :=
      PropType.read_name (by decide) (by decide)
    obtain ⟨doc, hdoc, hstated⟩ := exists_extract_print ⟨2, 2⟩ hcomponent
      (List.forall_mem_singleton.2 labelMember_isDocumented) ['\n']
    exact ⟨doc, hdoc, by rw [hstated, List.map_singleton, labelMember, hread]; rfl⟩
  · have hline : '\n' ∉ trailing (some "shown, in bold".toList) := by decide
    have hlines : ∀ line ∈ [(labelMember [], some "shown, in bold".toList)].flatMap
        (commentedLines ⟨2, 2⟩), IsBodyLine line := by
      rw [List.flatMap_singleton]
      exact isBodyLine_of_mem_commentedLines labelMember_isDocumented hline
    have hpieces : group [] (([(labelMember [], some "shown, in bold".toList)].flatMap
        (commentedLines ⟨2, 2⟩)).map trim) =
          [.declaration "label: string".toList, .declaration "in bold".toList] := by
      decide
    have herror : ofPieces [] [.declaration "label: string".toList, .declaration "in bold".toList] =
        .error "in bold".toList := rfl
    rw [printCommented, extract_printLines hcomponent hlines, hpieces, herror]
    simp only [String.ofList_toList]

end Interface

end StyleGuide
