import StyleGuide.Proofs.Props.Lines
import StyleGuide.Proofs.Props.Parts

/-!
# Separators between declarations

A member ends at a semicolon, a comma or a line break outside of brackets. The lines of a body are
told apart before anything else, and semicolons and commas only on lines that belong together. As
long as no bracket is open at a line break this makes no difference: the declarations of a body are
its parts between all three, so it does not matter which of them stand between two members, or how
many.

## Main definitions

* `Member.endsMember`: the characters that end a member.
* `Member.ClosesLines`: no bracket is open at a line break, nor at the end.
* `Member.IsTypeLine`, `Member.IsDeclarable`: the texts of types, and the members, that can be
  declared among others.
* `Member.printBody`: declarations with blanks and separators between them.

## Main results

* `Member.pieces_eq_parts`: what lines and separators tell apart together.
* `Member.readAll_printBody`: members are read back whatever stands between them.
-/

namespace StyleGuide.Member

open StyleGuide.Bracket

variable {xs ys cs body line : List Char} {s : Char}

/-! ## Lines and separators -/

/-- The characters that end a member outside of brackets. -/
def endsMember (c : Char) : Bool := endsDeclaration c || c = '\n'

lemma isNeutral_of_endsDeclaration (c : Char) (h : endsDeclaration c = true) :
    isNeutral c = true :=
  isNeutral_of (by decide) h

lemma isNeutral_of_endsMember (c : Char) (h : endsMember c = true) : isNeutral c = true :=
  isNeutral_of (by decide) h

lemma endsMember_of_ne (h : s ≠ '\n') : endsMember s = endsDeclaration s := by
  simp [endsMember, h]

/-- No bracket is open at a line break, nor at the end. -/
structure ClosesLines (cs : List Char) : Prop where
  breaks : Along (fun d c => c = '\n' → d = 0) start cs
  closes : depthAfter cs = 0

lemma closesLines_of_not_mem (h : '\n' ∉ cs) (hdepth : depthAfter cs = 0) : ClosesLines cs :=
  ⟨along_of_forall fun _ hc _ heq => absurd (heq ▸ hc) h, hdepth⟩

lemma ClosesLines.append (hxs : ClosesLines xs) (hys : ClosesLines ys)
    (hhead : ys.head? ≠ some '>') : ClosesLines (xs ++ ys) :=
  ⟨(along_append_iff hxs.closes hhead).2 ⟨hxs.breaks, hys.breaks⟩,
    (depthAfter_append hxs.closes hhead).trans hys.closes⟩

lemma ClosesLines.neutral_append (hys : ClosesLines ys) (h : ∀ c ∈ xs, isNeutral c = true) :
    ClosesLines (xs ++ ys) :=
  ⟨(along_neutral_append h).2 ⟨fun _ _ _ => rfl, hys.breaks⟩,
    (depthAfter_neutral_append h ys).trans hys.closes⟩

/-- Where no bracket is open at a line break, the parts of a text are those of its lines. -/
theorem parts_joinWith {pieces : List (List Char)} (hne : pieces ≠ [])
    (hbreak : ∀ piece ∈ pieces, '\n' ∉ piece) (h : ClosesLines (joinWith '\n' pieces)) :
    (∀ piece ∈ pieces, depthAfter piece = 0) ∧
      parts endsMember (joinWith '\n' pieces) = pieces.flatMap (parts endsDeclaration) := by
  have hline : ∀ piece ∈ pieces, parts endsMember piece = parts endsDeclaration piece :=
    fun piece hpiece => parts_congr fun c hc =>
      endsMember_of_ne (ne_of_mem_of_not_mem hc (hbreak piece hpiece))
  induction pieces with
  | nil => exact absurd rfl hne
  | cons piece pieces ih =>
    rw [List.forall_mem_cons] at hbreak hline
    cases pieces with
    | nil => exact ⟨List.forall_mem_singleton.2 h.closes, by simp [joinWith, hline.1]⟩
    | cons next pieces =>
      rw [joinWith] at h ⊢
      -- At the line break all brackets are closed, so the rest looks as a text by itself.
      have hpiece : depthAfter piece = 0 := (along_append.1 h.breaks).2.1 rfl
      have hrest : ClosesLines (joinWith '\n' (next :: pieces)) :=
        ⟨((along_append_cons hpiece rfl).1 h.breaks).2.2,
          (depthAfter_append_cons hpiece rfl _).symm.trans h.closes⟩
      obtain ⟨hdepth, hparts⟩ := ih (List.cons_ne_nil next pieces) hbreak.2 hrest hline.2
      refine ⟨List.forall_mem_cons.2 ⟨hpiece, hdepth⟩, ?_⟩
      rw [parts_append_cons hpiece rfl rfl, hline.1, hparts]
      rfl

/-- The lines of a body without the blanks around them, blank lines left out. -/
def lines (body : List Char) : List (List Char) :=
  ((cut (· == '\n') body).map trim).filter (· ≠ [])

lemma joinedLines_eq (body : List Char) :
    joinedLines body = ((lines body).foldl addLine []).reverse := rfl

lemma isTrimmed_of_mem_lines (h : line ∈ lines body) : IsTrimmed line := by
  obtain ⟨hmem, hne⟩ := List.mem_filter.1 h
  obtain ⟨piece, -, rfl⟩ := List.mem_map.1 hmem
  exact isTrimmed_trim (by simpa using hne)

/-- Blanks around pieces, and blank pieces, make no parts. -/
lemma flatMap_parts_trim (pieces : List (List Char)) :
    ((pieces.map trim).filter (· ≠ [])).flatMap (parts endsDeclaration) =
      pieces.flatMap (parts endsDeclaration) := by
  induction pieces with
  | nil => rfl
  | cons piece pieces ih =>
    have htrim := parts_trim endsDeclaration_eq_false_of_isBlank piece
    rw [List.map_cons, List.flatMap_cons, ← htrim, ← ih]
    by_cases hblank : trim piece = []
    · rw [List.filter_cons_of_neg (by simpa using hblank), hblank, parts_nil, List.nil_append]
    · rw [List.filter_cons_of_pos (by simpa using hblank), List.flatMap_cons]

lemma parts_lines (h : ClosesLines body) :
    (∀ line ∈ lines body, depthAfter line = 0) ∧
      parts endsMember body = (lines body).flatMap (parts endsDeclaration) := by
  have hbody : joinWith '\n' (cut (· == '\n') body) = body := joinWith_cut '\n' body
  have hbreak : ∀ piece ∈ cut (· == '\n') body, '\n' ∉ piece := fun piece hpiece hmem =>
    absurd (not_mem_of_mem_cut (· == '\n') hpiece hmem) (by decide)
  rw [← hbody] at h
  obtain ⟨hdepth, hparts⟩ := parts_joinWith (cut_ne_nil _ body) hbreak h
  rw [hbody] at hparts
  refine ⟨fun line hline => ?_, by rw [hparts, lines, flatMap_parts_trim]⟩
  obtain ⟨piece, hpiece, rfl⟩ := List.mem_map.1 (List.mem_filter.1 hline).1
  exact (depthAfter_trim piece).trans (hdepth piece hpiece)

/-! ## Lines with declarations -/

/-- A line with nothing but declarations is no comment, and does not go on with the line above. -/
lemma commentText?_of_parts (htrimmed : IsTrimmed line)
    (h : ∀ part ∈ parts endsDeclaration line, StartsLikeName part) :
    commentText? line = none ∧ isContinuation line = false := by
  obtain ⟨c, hc, hblank⟩ := htrimmed.head
  obtain ⟨tail, rfl⟩ := List.head?_eq_some_iff.1 hc
  cases hends : endsDeclaration c with
  | true =>
    simp only [endsDeclaration, Bool.or_eq_true, decide_eq_true_eq] at hends
    rcases hends with rfl | rfl <;> exact ⟨rfl, rfl⟩
  | false =>
    obtain ⟨rest, more, hparts⟩ := exists_parts_eq_cons hblank hends tail
    obtain ⟨c', rest', heq, hstarts⟩ := h (c :: rest) (hparts ▸ List.mem_cons_self)
    cases heq
    exact commentText?_cons hstarts

lemma declarationsOf_eq_parts (h : ∀ part ∈ parts endsDeclaration line, commentText? part = none) :
    declarationsOf line = parts endsDeclaration line := by
  rw [declarationsOf_eq, parts]
  refine List.filter_congr fun part hpart => ?_
  by_cases hne : part = []
  · simp [hne]
  · simp [h part (List.mem_filter.2 ⟨hpart, by simpa using hne⟩)]

/-- Where no bracket is open at a line break, and there are no comments, line breaks are separators
like others. -/
theorem pieces_eq_parts (hbody : ClosesLines body)
    (h : ∀ part ∈ parts endsMember body, StartsLikeName part) :
    pieces body = (parts endsMember body).map .declaration := by
  obtain ⟨hdepth, hparts⟩ := parts_lines hbody
  rw [hparts] at h ⊢
  have hline : ∀ line ∈ lines body, ∀ part ∈ parts endsDeclaration line, StartsLikeName part :=
    fun line hline part hpart => h part (List.mem_flatMap.2 ⟨line, hline, hpart⟩)
  have hcomment : ∀ line ∈ lines body, commentText? line = none ∧ isContinuation line = false :=
    fun line hmem => commentText?_of_parts (isTrimmed_of_mem_lines hmem) (hline line hmem)
  have hjoined : joinedLines body = lines body := by
    rw [joinedLines_eq, foldl_addLine fun line hmem => (hcomment line hmem).2]
    simp
  rw [pieces, hjoined, group_eq_flatMap fun line hmem _ => Int.le_of_eq (hdepth line hmem),
    List.map_flatMap]
  refine List.flatMap_congr fun line hmem => ?_
  rw [linePieces, (hcomment line hmem).1, declarationsOf_eq_parts fun part hpart =>
    (hline line hmem part hpart).commentText?_eq]

/-- Declarations without comments are read one by one. -/
lemma ofPieces_map {α : Type} {text : α → List Char} {member : α → Member} {as : List α}
    (h : ∀ a ∈ as, (member a).comments = [] ∧ readDeclaration? (text a) =
      some ((member a).name, (member a).isOptional, (member a).type)) :
    ofPieces [] ((as.map text).map .declaration) = .ok (as.map member) := by
  induction as with
  | nil => rfl
  | cons a as ih =>
    obtain ⟨hcomments, hread⟩ := h a List.mem_cons_self
    rw [List.map_cons, List.map_cons, ofPieces, hread]
    simp only
    rw [ih fun b hb => h b (List.mem_cons_of_mem a hb), ← hcomments]
    rfl

/-! ## Declarations with separators between them -/

/-- The texts that can stand for a type on a line of declarations: they close their brackets, and
have no separator outside of them. -/
structure IsTypeLine (type : List Char) : Prop where
  isTrimmed : IsTrimmed type
  closes : depthAfter type = 0
  clean : Clean endsDeclaration type
  oneLine : '\n' ∉ type

instance {type : List Char} : Decidable (IsTypeLine type) :=
  decidable_of_iff (IsTrimmed type ∧ depthAfter type = 0 ∧ Clean endsDeclaration type ∧ '\n' ∉ type)
    ⟨fun ⟨h₁, h₂, h₃, h₄⟩ => ⟨h₁, h₂, h₃, h₄⟩, fun h => ⟨h.1, h.2, h.3, h.4⟩⟩

/-- The members that can be declared among others. -/
structure IsDeclarable (m : Member) : Prop extends IsTypeLine m.type where
  isName : IsName m.name

variable {m : Member}

instance : Decidable m.IsDeclarable :=
  decidable_of_iff (IsTypeLine m.type ∧ IsName m.name)
    ⟨fun ⟨htype, hname⟩ => ⟨htype, hname⟩, fun h => ⟨h.1, h.2⟩⟩

lemma IsWritable.isDeclarable (h : m.IsWritable) : m.IsDeclarable :=
  ⟨⟨h.isTypeText.isTrimmed, h.isTypeText.balanced.closes, h.isTypeText.clean, h.isTypeText.oneLine⟩,
    h.isName⟩

namespace IsDeclarable

lemma declaration_eq (m : Member) :
    m.declaration = m.name ++ colon m.isOptional ++ ' ' :: m.type := by
  simp [declaration, mark_eq]

lemma closesLines (h : m.IsDeclarable) : ClosesLines m.declaration := by
  refine closesLines_of_not_mem (not_mem_declaration h.isName h.oneLine) ?_
  have hcolon := (balanced_clean_colon h.isName m.isOptional).1.closes
  rw [declaration_eq, depthAfter_append_cons hcolon rfl, h.closes]

/-- A declaration is its own only part. -/
lemma parts_eq (h : m.IsDeclarable) : parts endsMember m.declaration = [m.declaration] := by
  obtain ⟨hbalanced, hcolon⟩ := balanced_clean_colon h.isName m.isOptional
  have hclean : Clean endsDeclaration m.declaration := by
    rw [declaration_eq]
    exact (along_append_cons hbalanced.closes rfl).2 ⟨hcolon, fun _ => rfl, h.clean⟩
  have hbreak : ∀ c ∈ m.declaration, endsMember c = endsDeclaration c := fun c hc =>
    endsMember_of_ne (ne_of_mem_of_not_mem hc (not_mem_declaration h.isName h.oneLine))
  rw [parts_congr hbreak]
  exact parts_eq_singleton hclean (h.isName.isTrimmed.append h.isTrimmed)

lemma readDeclaration?_eq (h : m.IsDeclarable) :
    readDeclaration? m.declaration = some (m.name, m.isOptional, m.type) := by
  rw [declaration, readDeclaration?_append h.isName _ h.isTrimmed.trimLeft_eq h.isTrimmed.ne_nil,
    typeText_eq h.isTrimmed h.closes h.clean]

end IsDeclarable

/-- Where the parts of a body are declarations, they are read one by one, without comments. -/
theorem readAll_eq_ok {ms : List Member} (hbody : ClosesLines body)
    (hparts : parts endsMember body = ms.map declaration) (hms : ∀ m ∈ ms, m.IsDeclarable) :
    readAll body = .ok (ms.map fun m => { m with comments := [] }) := by
  have hstarts : ∀ part ∈ parts endsMember body, StartsLikeName part := by
    rw [hparts]
    refine List.forall_mem_map.2 fun m hm => ?_
    rw [declaration, List.append_assoc]
    exact (hms m hm).isName.startsLikeName.append _
  rw [readAll, pieces_eq_parts hbody hstarts, hparts]
  exact ofPieces_map fun m hm => ⟨rfl, (hms m hm).readDeclaration?_eq⟩

/-- A body of declarations, each of them behind a gap, and something behind the last one. -/
def printBody (entries : List (List Char × Member)) (back : List Char) : List Char :=
  spread (entries.map fun e => (e.1, e.2.declaration)) ++ back

variable {entries : List (List Char × Member)} {back : List Char}

section Body

variable (hspread : IsSpread endsMember (entries.map fun e => (e.1, e.2.declaration)))
  (hback : IsBetween endsMember back) (hms : ∀ e ∈ entries, e.2.IsDeclarable)

include hspread hback hms

lemma closesLines_printBody : ClosesLines (printBody entries back) := by
  have hneutral := hback.neutral isNeutral_of_endsMember
  have hhead : back.head? ≠ some '>' := by
    intro hangle
    cases hneutral '>' (List.mem_of_head? hangle)
  have hnil : ClosesLines [] := ⟨trivial, rfl⟩
  have hend : ClosesLines (back ++ []) := hnil.neutral_append hneutral
  rw [List.append_nil] at hend
  refine ClosesLines.append ⟨?_, depthAfter_spread isNeutral_of_endsMember hspread⟩ hend hhead
  refine (along_spread isNeutral_of_endsMember hspread).2 (List.forall_mem_map.2 fun e he => ?_)
  exact ⟨fun _ _ _ => rfl, (hms e he).closesLines.breaks⟩

/-- Declarations are told apart by what stands between them. -/
lemma parts_printBody :
    parts endsMember (printBody entries back) = entries.map fun e => e.2.declaration := by
  have hdepth := depthAfter_spread isNeutral_of_endsMember hspread
  rw [printBody, parts_append_gap isNeutral_of_endsMember hdepth hback,
    parts_spread isNeutral_of_endsMember hspread, List.flatMap_map, List.map_eq_flatMap]
  exact List.flatMap_congr fun e he => (hms e he).parts_eq

/-- Members are read back, without their comments, whatever stands between their declarations. -/
theorem readAll_printBody :
    readAll (printBody entries back) = .ok (entries.map fun e => { e.2 with comments := [] }) := by
  have hbody := closesLines_printBody hspread hback hms
  have hparts :
      parts endsMember (printBody entries back) = (entries.map (·.2)).map declaration := by
    rw [parts_printBody hspread hback hms, List.map_map]
    rfl
  rw [readAll_eq_ok hbody hparts (List.forall_mem_map.2 hms), List.map_map]
  rfl

end Body

/-- Whatever stands between declarations, be it blanks, semicolons, commas or line breaks, there is
one property for each of them, in their order: it is required unless it is marked, and has the type
that the text of its type is read as. -/
theorem props_readAll_printBody
    (hspread : IsSpread endsMember (entries.map fun e => (e.1, e.2.declaration)))
    (hback : IsBetween endsMember back) (hms : ∀ e ∈ entries, e.2.IsDeclarable) :
    (readAll (printBody entries back)).map
        (fun ms => ms.map fun m => PropType.ofMember m (.read m.type)) =
      .ok (entries.map fun e =>
        (String.ofList e.2.name, ⟨some (.read e.2.type), none, !e.2.isOptional, none, ""⟩)) := by
  rw [readAll_printBody hspread hback hms]
  simp [Except.map, PropType.ofMember, joinWith]

/-- Members of a form, with a separator of each kind between two of them. -/
def formEntries : List (List Char × Member) :=
  [("\n  ".toList, ⟨"id".toList, false, "string".toList, []⟩),
    (";".toList, ⟨"at".toList, true, "f(a, b) => \x7b x: 1; y: 2 \x7d".toList, []⟩),
    (", ".toList, ⟨"tags".toList, false, "Map<string, 'a' | 'b'>[]".toList, []⟩),
    ("\n\n\t".toList, ⟨"size".toList, true, "number".toList, []⟩),
    (";\n  ".toList, ⟨"$ref".toList, false, "Ref".toList, []⟩),
    (" ,\n".toList, ⟨"kind".toList, true, "| 'x'".toList, []⟩)]

/-- The body is
```

  id: string;at?: f(a, b) => { x: 1; y: 2 }, tags: Map<string, 'a' | 'b'>[]

	size?: number;
  $ref: Ref ,
kind?: | 'x'

```
-/
theorem props_readAll_formEntries :
    (readAll (printBody formEntries ['\n'])).map
        (fun ms => ms.map fun m => PropType.ofMember m (.read m.type)) =
      .ok (formEntries.map fun e =>
        (String.ofList e.2.name, ⟨some (.read e.2.type), none, !e.2.isOptional, none, ""⟩)) := by
  have hms : ∀ e ∈ formEntries, e.2.IsDeclarable := by
    have hall : formEntries.all (fun e => decide e.2.IsDeclarable) = true := by decide
    simpa using hall
  have hspread : IsSpread endsMember (formEntries.map fun e => (e.1, e.2.declaration)) :=
    ⟨by decide, by decide, List.forall_mem_map.2 fun e he => (hms e he).closesLines.closes⟩
  exact props_readAll_printBody hspread (by decide) hms

end StyleGuide.Member
