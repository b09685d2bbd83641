import StyleGuide.Proofs.Props.Lines
import StyleGuide.Proofs.Props.TypeReader

/-!
# Interfaces that are written down

An interface with each member on a line of its own, and the lines that describe it above. Reading
such a source gives the members back, each with its own description.

## Main definitions

* `Member.linesOf`: what a member is written as.
* `Interface.Documented`: a member with what is said about it.
* `Interface.print`: the source of an interface.

## Main results

* `Member.readAll_body`: members are read back from their lines, each with the comments above it.
* `Interface.body?_print`: the body of a printed interface is found.
* `Interface.extract_print`: what is extracted from a printed interface.
-/

namespace StyleGuide

namespace Member

open StyleGuide.Bracket

/-! ## What a member is written as -/

/-- How many spaces stand before the comments of a member, and before its declaration. -/
structure Layout where
  comments : Nat
  declaration : Nat

/-- The comment that says `text`. -/
def commentLine (text : List Char) : List Char := "// ".toList ++ text

/-- The lines of a member: first its comments, and then its declaration. -/
def linesOf (layout : Layout) (m : Member) : List (Nat × List Char) :=
  m.comments.map (fun text => (layout.comments, commentLine text)) ++
    [(layout.declaration, m.declaration ++ [';'])]

/-- The texts that a comment can consist of. -/
structure IsComment (text : List Char) : Prop where
  isTrimmed : IsTrimmed text
  oneLine : '\n' ∉ text
  /-- It does not end like a comment of the other kind. -/
  notEnded : ¬ "*/".toList <:+ text

variable {line : Nat × List Char} {text : List Char} {m : Member}

lemma IsComment.isLine (h : IsComment text) : IsLine (commentLine text) := by
  have hfront : IsTrimmed "//".toList := by decide
  have htrimmed : IsTrimmed ("//".toList ++ [' '] ++ text) := hfront.append h.isTrimmed
  exact ⟨htrimmed, by simp [commentLine, h.oneLine], rfl, by simp [commentLine]⟩

lemma dropMarks_eq_self {cs : List Char} (h : ∀ rest, cs ≠ '/' :: '*' :: rest) :
    dropMarks cs = cs := by
  unfold dropMarks
  split
  · exact absurd rfl (h _)
  · rfl

/-- The marks in front of the text of a comment. -/
def frontMarks : List (List Char) := ["//".toList, "/*".toList, "/**".toList, "*".toList]

/-- The text of a comment is what stands behind the marks in front, without those at its end. -/
lemma commentText?_of_mem_frontMarks {marks : List Char} (hmarks : marks ∈ frontMarks)
    (body : List Char) : commentText? (marks ++ ' ' :: body) =
      some (trim (dropMarks (' ' :: body).reverse).reverse) := by
  simp only [frontMarks, List.mem_cons, List.not_mem_nil, or_false] at hmarks
  rcases hmarks with rfl | rfl | rfl | rfl <;> rfl

/-- A comment that ends with its line is read as what it says. -/
theorem commentText?_append {marks : List Char} (hmarks : marks ∈ frontMarks) (h : IsComment text) :
    commentText? (marks ++ ' ' :: text) = some text := by
  -- A mark at the end would either stand in the text or begin with the blank in front of it.
  have hdrop : dropMarks (' ' :: text).reverse = (' ' :: text).reverse := by
    apply dropMarks_eq_self
    intro rest hrest
    have hends : ' ' :: text = rest.reverse ++ "*/".toList := by
      rw [← List.reverse_reverse (' ' :: text), hrest]
      simp
    cases hfront : rest.reverse with
    | nil =>
      rw [hfront] at hends
      cases hends
    | cons c front =>
      rw [hfront] at hends
      exact h.notEnded ⟨front, (List.cons.inj hends).2.symm⟩
  rw [commentText?_of_mem_frontMarks hmarks, hdrop, List.reverse_reverse, trim,
    trimLeft_cons_of_isBlank rfl, ← trim, h.isTrimmed.trim_eq]

/-- A comment between marks is read as what it says. -/
theorem commentText?_append_mark {marks : List Char} (hmarks : marks ∈ frontMarks)
    (h : IsTrimmed text) : commentText? (marks ++ ' ' :: (text ++ " */".toList)) = some text := by
  have hblank : ∀ b ∈ [' '], isBlank b = true := List.forall_mem_singleton.2 rfl
  have hdrop : dropMarks (' ' :: (text ++ " */".toList)).reverse =
      ([' '] ++ text ++ [' ']).reverse := by
    have hreverse : (' ' :: (text ++ " */".toList)).reverse =
        '/' :: '*' :: ' ' :: (' ' :: text).reverse := by simp
    rw [hreverse, dropMarks, dropMarks_eq_self (by simp)]
    simp
  rw [commentText?_of_mem_frontMarks hmarks, hdrop, List.reverse_reverse,
    h.trim_around hblank hblank]

/-- A comment is read as what it says. -/
theorem commentText?_commentLine (h : IsComment text) :
    commentText? (commentLine text) = some text :=
  commentText?_append (show "//".toList ∈ frontMarks by decide) h

lemma isLine_declaration (hname : IsName m.name) (hline : '\n' ∉ m.type) :
    IsLine (m.declaration ++ [';']) := by
  obtain ⟨c, hc, hstarts⟩ := hname.starts
  have hend : IsTrimmed [';'] := by decide
  have htrimmed : IsTrimmed (m.name ++ (mark m.isOptional ++ m.type) ++ [';']) :=
    hname.isTrimmed.append hend
  rw [← List.append_assoc m.name] at htrimmed
  refine ⟨htrimmed, by simp [not_mem_declaration hname hline],
    (commentText?_declaration hname [';']).2, ?_⟩
  obtain ⟨tail, htail⟩ := List.head?_eq_some_iff.1 hc
  rw [declaration, htail]
  rintro hclosing
  cases Option.some.inj hclosing
  cases hstarts

lemma IsWritable.isLine (h : m.IsWritable) : IsLine (m.declaration ++ [';']) :=
  isLine_declaration h.isName h.isTypeText.oneLine

/-- A declaration is told apart from the separator behind it. -/
lemma declarationsOf_declaration (h : m.IsWritable) :
    declarationsOf (m.declaration ++ [';']) = [m.declaration] := by
  obtain ⟨htrimmed, hbalanced, hclean⟩ := h.isPart
  have hcomment := (h.commentText?_eq_none []).1
  rw [List.append_nil] at hcomment
  have hdepth : (start.after m.declaration).depth = 0 := hbalanced.closes
  have hsplit : split endsDeclaration (m.declaration ++ [';']) = [m.declaration, []] := by
    rw [split, splitFrom_append hclean, splitFrom_cons hdepth rfl]
    simp [prepend, splitFrom]
  have hblank : trim [] = [] := rfl
  rw [declarationsOf_eq, hsplit, List.map_cons, htrimmed.trim_eq, List.map_singleton, hblank]
  simp [htrimmed.ne_nil, hcomment]

/-! ## Members on their lines -/

lemma flatMap_linePieces_comments {comments : List (List Char)}
    (h : ∀ text ∈ comments, IsComment text) :
    (comments.map commentLine).flatMap linePieces = comments.map .comment :=
  flatMap_linePieces_map fun text htext =>
    ⟨commentText?_commentLine (h text htext), (h text htext).isTrimmed.ne_nil⟩

lemma linePieces_declaration (h : m.IsWritable) :
    linePieces (m.declaration ++ [';']) = [.declaration m.declaration] := by
  rw [linePieces, (h.commentText?_eq_none [';']).1, declarationsOf_declaration h]
  rfl

lemma IsWritable.depthAfter_eq (h : m.IsWritable) : depthAfter (m.declaration ++ [';']) = 0 := by
  have hsemicolon : Balanced [';'] := by decide
  exact (h.isPart.balanced.append hsemicolon).closes

/-- The members that can be read back together with their comments. -/
structure IsDocumented (m : Member) : Prop extends IsWritable m where
  isComment : ∀ text ∈ m.comments, IsComment text

lemma IsDocumented.isLine_of_mem {layout : Layout} (h : m.IsDocumented)
    (hline : line ∈ m.linesOf layout) : IsLine line.2 := by
  rcases List.mem_append.1 hline with hline | hline
  · obtain ⟨text, htext, rfl⟩ := List.mem_map.1 hline
    exact (h.isComment text htext).isLine
  · cases List.mem_singleton.1 hline
    exact h.toIsWritable.isLine

lemma flatMap_linePieces_linesOf {layout : Layout} (h : m.IsDocumented) :
    ((m.linesOf layout).map (·.2)).flatMap linePieces = piecesOf m := by
  have hlines : (m.linesOf layout).map (·.2) =
      m.comments.map commentLine ++ [m.declaration ++ [';']] := by
    simp [linesOf, Function.comp_def]
  rw [hlines, List.flatMap_append, flatMap_linePieces_comments h.isComment, List.flatMap_singleton,
    linePieces_declaration h.toIsWritable, piecesOf]

lemma IsDocumented.depthAfter_le (h : m.IsDocumented) {layout : Layout}
    (hline : line ∈ m.linesOf layout) (hnone : commentText? line.2 = none) :
    depthAfter line.2 ≤ 0 := by
  rcases List.mem_append.1 hline with hline | hline
  · obtain ⟨text, htext, rfl⟩ := List.mem_map.1 hline
    rw [commentText?_commentLine (h.isComment text htext)] at hnone
    cases hnone
  · cases List.mem_singleton.1 hline
    exact Int.le_of_eq h.toIsWritable.depthAfter_eq

lemma group_flatMap {layout : Layout} {ms : List Member} (h : ∀ m ∈ ms, m.IsDocumented) :
    group [] ((ms.flatMap (linesOf layout)).map (·.2)) = ms.flatMap piecesOf := by
  rw [group_eq_flatMap]
  · rw [List.map_flatMap, List.flatMap_assoc]
    exact List.flatMap_congr fun m hm => flatMap_linePieces_linesOf (h m hm)
  · refine List.forall_mem_map.2 fun line hline => ?_
    obtain ⟨m, hm, hmem⟩ := List.mem_flatMap.1 hline
    exact (h m hm).depthAfter_le hmem

/-- The body of an interface with these members. -/
def body (layout : Layout) (ms : List Member) : List Char :=
  '\n' :: endLines ((ms.flatMap (linesOf layout)).map indented)

/-- Members are read back, each with the comments above it. -/
theorem readAll_body (layout : Layout) {ms : List Member} (h : ∀ m ∈ ms, m.IsDocumented) :
    readAll (body layout ms) = .ok ms := by
  have hline : ∀ line ∈ ms.flatMap (linesOf layout), IsLine line.2 := by
    intro line hline
    obtain ⟨m, hm, hmem⟩ := List.mem_flatMap.1 hline
    exact (h m hm).isLine_of_mem hmem
  rw [readAll, pieces, body, joinedLines_endLines hline, group_flatMap h]
  exact ofPieces_flatMap fun m hm => (h m hm).toIsWritable

/-- A required string `label` with a description. -/
def labelMember (comments : List (List Char)) : Member :=
  ⟨"label".toList, false, "string".toList, comments⟩

lemma labelMember_isWritable (comments : List (List Char)) : (labelMember comments).IsWritable := by
  have hpart : IsPart endsDeclaration "string".toList := ⟨by decide, by decide, by decide⟩
  have hname : IsName "label".toList := by decide
  have hline : '\n' ∉ "string".toList := by decide
  exact ⟨hname, ⟨hpart, hline⟩⟩

end Member

namespace Interface

open Member

/-! ## The source of an interface -/

/-- The source of an interface with these members. -/
def print (layout : Layout) (component : List Char) (ms : List Member) : List Char :=
  "interface".toList ++ ' ' :: (component ++ "Props".toList ++
    ' ' :: '\x7b' :: (body layout ms ++ ['\x7d']))

variable {layout : Layout} {component : List Char} {ms : List Member}

/-- The body of a printed interface is found, whatever stands behind it. -/
theorem body?_print (hcomponent : ∀ c ∈ component, isWord c = true)
    (h : ∀ m ∈ ms, m.IsDocumented) (rest : List Char) :
    body? (print layout component ms ++ rest) = some (body layout ms) := by
  have hlines : ∀ text ∈ (ms.flatMap (linesOf layout)).map indented, IsBodyLine text := by
    refine List.forall_mem_map.2 fun line hline => ?_
    obtain ⟨m, hm, hmem⟩ := List.mem_flatMap.1 hline
    exact isBodyLine_indented ((h m hm).isLine_of_mem hmem).isBodyLine
  exact body?_printLines hcomponent hlines rest

/-! ## Documented members -/

/-- A member with what is said about it. -/
structure Documented where
  name : String
  isOptional : Bool
  type : PropType
  /-- The lines of its description. -/
  lines : List String

namespace Documented

/-- The member as it is written. -/
def toMember (d : Documented) : Member :=
  ⟨d.name.toList, d.isOptional, d.type.print, d.lines.map String.toList⟩

/-- The property that the member declares. -/
def toProp (d : Documented) : String × PropDescriptor :=
  (d.name, ⟨some d.type, none, !d.isOptional, none, "\n".intercalate d.lines⟩)

/-- The members that are read back from the source. -/
structure IsReadable (d : Documented) : Prop where
  isName : IsName d.name.toList
  printable : d.type.Printable
  isComment : ∀ line ∈ d.lines, IsComment line.toList

variable {d : Documented}

lemma IsReadable.isDocumented (h : d.IsReadable) : d.toMember.IsDocumented := by
  obtain ⟨hname, hprintable, hcomment⟩ := h
  refine ⟨⟨hname, hprintable.spec.1.toIsTypeText⟩, fun text htext => ?_⟩
  obtain ⟨line, hline, rfl⟩ := List.mem_map.1 htext
  exact hcomment line hline

end Documented

lemma joinWith_eq_intercalate (x : Char) (pieces : List (List Char)) :
    joinWith x pieces = [x].intercalate pieces := by
  induction pieces with
  | nil => rfl
  | cons piece pieces ih =>
    cases pieces with
    | nil => simp [joinWith]
    | cons next pieces =>
      rw [joinWith, ih, List.intercalate_cons_cons, List.append_assoc, List.singleton_append]

namespace Documented

variable {ds : List Documented}

lemma IsReadable.ofMember_toMember {d : Documented} (h : d.IsReadable) :
    PropType.ofMember d.toMember (.read d.toMember.type) = d.toProp := by
  have hread : PropType.read d.toMember.type = d.type := h.printable.spec.2
  have hdescription : joinWith '\n' d.toMember.comments = ("\n".intercalate d.lines).toList := by
    rw [joinWith_eq_intercalate, String.toList_intercalate]
    rfl
  rw [PropType.ofMember, hread, hdescription, String.ofList_toList]
  simp only [toMember, toProp, String.ofList_toList]

end Documented

variable {ds : List Documented}

/-- All that is extracted from a printed interface. -/
theorem extract_print_eq (layout : Layout) (hcomponent : ∀ c ∈ component, isWord c = true)
    (h : ∀ d ∈ ds, d.IsReadable) (rest : List Char) :
    let source := print layout component (ds.map (·.toMember)) ++ rest
    extract (String.ofList source) = .ok ⟨String.ofList (description source),
      (defaults source).foldl setDefault (ds.map (·.toProp))⟩ := by
  have hdocumented : ∀ m ∈ ds.map (·.toMember), m.IsDocumented := by
    intro m hm
    obtain ⟨d, hd, rfl⟩ := List.mem_map.1 hm
    exact (h d hd).isDocumented
  have hprops : (ds.map (·.toMember)).map (fun m => PropType.ofMember m (.read m.type)) =
      ds.map (·.toProp) := by
    rw [List.map_map]
    exact List.map_congr_left fun d hd => (h d hd).ofMember_toMember
  intro source
  have hbody : body? source = some (body layout (ds.map (·.toMember))) :=
    body?_print hcomponent hdocumented rest
  rw [extract]
  simp only [String.toList_ofList, hbody, readAll_body layout hdocumented, hprops]

/-- Extraction gives back what an interface was written from: the properties stand in the order of
the members, each with its own description, whatever stands behind the interface. -/
theorem extract_print (layout : Layout) (hcomponent : ∀ c ∈ component, isWord c = true)
    (h : ∀ d ∈ ds, d.IsReadable) (rest : List Char) :
    ∃ doc,
      extract (String.ofList (print layout component (ds.map (·.toMember)) ++ rest)) = .ok doc ∧
      doc.props.map (fun p => (p.1, p.2.required, p.2.type, p.2.description)) =
        ds.map fun d => (d.name, !d.isOptional, some d.type, "\n".intercalate d.lines) := by
  refine ⟨_, extract_print_eq layout hcomponent h rest, ?_⟩
  rw [map_foldl_setDefault fun _ _ _ => rfl, List.map_map]
  rfl

/-- Two members, the second of which can be absent and has a description of two lines. -/
def sampleMembers : List Documented :=
  [⟨"label", false, .primitive "string", []⟩,
    ⟨"tone", true, .enumOf [⟨"'info'", false⟩, ⟨"'warning'", false⟩],
      ["Colour /* of", "/the border"]⟩]

/-- The source is
```
interface BoxProps {
  label: string;
  // Colour /* of
  // /the border
  tone?: 'info' | 'warning';
}
```
-/
theorem extract_print_sampleMembers :
    ∃ doc, extract (String.ofList
        (print ⟨2, 2⟩ "Box".toList (sampleMembers.map (·.toMember)) ++ [])) = .ok doc ∧
      doc.props.map (fun p => (p.1, p.2.required, p.2.type, p.2.description)) =
        sampleMembers.map fun d =>
          (d.name, !d.isOptional, some d.type, "\n".intercalate d.lines) := by
  have hlabel : Documented.IsReadable ⟨"label", false, .primitive "string", []⟩ :=
    ⟨by decide, .primitive (by decide) (by decide), by simp⟩
  have hliterals : ∀ v ∈ [(⟨"'info'", false⟩ : EnumValue), ⟨"'warning'", false⟩],
      PropType.IsQuotedLiteral v :=
    List.forall_mem_cons.2
      ⟨⟨rfl, '\'', by decide, "info".toList, rfl, List.all_eq_true.1 (by decide)⟩,
        List.forall_mem_singleton.2
          ⟨rfl, '\'', by decide, "warning".toList, rfl, List.all_eq_true.1 (by decide)⟩⟩
  have hcomments : ∀ line ∈ ["Colour /* of", "/the border"], IsComment line.toList :=
    List.forall_mem_cons.2 ⟨⟨by decide, by decide, by decide⟩,
      List.forall_mem_singleton.2 ⟨by decide, by decide, by decide⟩⟩
  refine extract_print ⟨2, 2⟩ (List.all_eq_true.1 (by decide)) ?_ []
  refine List.forall_mem_cons.2 ⟨hlabel, List.forall_mem_singleton.2 ?_⟩
  exact ⟨by decide, .enumOf (by decide) hliterals, hcomments⟩

end Interface

end StyleGuide