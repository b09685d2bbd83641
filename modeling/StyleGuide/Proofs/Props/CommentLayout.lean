import Mathlib.Data.List.Forall2
import StyleGuide.Proofs.Props.Interface

/-!
# How comments are laid out

The description of a member can stand behind slashes, in comments of one line, or in one comment
over several lines. The reader knows comments by how their lines start, so it finds the description
when each line of it starts like a comment and has nothing else on it. A comment in front of a
declaration on the same line hides the declaration, and a line inside a comment that does not start
with a star is read as a declaration.

## Main definitions

* `Member.CommentStyle`: how the description of a member is written.
* `Member.linesIn`: the lines of a member in a style.
* `Member.IsPlain`: the lines of a description.

## Main results

* `Member.piecesIn_of_isLinewise`: the styles in which a description is found.
* `Member.group_linesIn`: the lines of members are read one by one.
* `Interface.stated_extract_linesIn_iff`: the styles in which all is extracted.
-/

namespace StyleGuide

namespace Member

open StyleGuide.Bracket

/-! ## Styles -/

/-- How the description of a member is written. A comment starts with two stars when it is for the
documentation. -/
inductive CommentStyle where
  /-- Each line behind slashes. -/
  | slashes
  /-- Each line in a comment of its own, above the member. -/
  | above (doc : Bool)
  /-- Each line in a comment of its own, on the line of the member. -/
  | ahead (doc : Bool)
  /-- All lines in one comment, which may each start with a star. -/
  | block (doc starred : Bool)
deriving DecidableEq

/-- The mark at the start of a comment. -/
def openingMark (doc : Bool) : List Char := if doc then "/**".toList else "/*".toList

/-- A line of a description in a comment of its own. -/
def enclosedComment (doc : Bool) (text : List Char) : List Char :=
  openingMark doc ++ ' ' :: (text ++ " */".toList)

/-- A line of a description inside a comment. -/
def innerLine (starred : Bool) (text : List Char) : List Char :=
  if starred then "* ".toList ++ text else text

/-- The lines of a member, whose description is written in some style. -/
def linesIn (style : CommentStyle) (m : Member) : List (List Char) :=
  match style with
  | .slashes => m.comments.map commentLine ++ [m.declaration ++ [';']]
  | .above doc => m.comments.map (enclosedComment doc) ++ [m.declaration ++ [';']]
  | .ahead doc =>
    [(m.comments.flatMap fun text => enclosedComment doc text ++ [' ']) ++ (m.declaration ++ [';'])]
  | .block doc starred =>
    openingMark doc :: (m.comments.map (innerLine starred) ++
      ["*/".toList, m.declaration ++ [';']])

/-- Each line of a description in this style starts like a comment, and has nothing else on it. -/
def CommentStyle.isLinewise : CommentStyle → Bool
  | slashes => true
  | above _ => true
  | ahead _ => false
  | block _ starred => starred

/-- Whether the reader finds the description of a member, and the member. -/
def isFound (sm : CommentStyle × Member) : Bool := sm.1.isLinewise || sm.2.comments.isEmpty

/-! ## Descriptions -/

/-- The characters with a meaning outside of comments, or at their end. -/
def marks : List Char := [':', '&', '/', '*'] ++ PropType.specials

/-- The lines of a description. -/
structure IsPlain (text : List Char) : Prop where
  isTrimmed : IsTrimmed text
  noMark : ∀ c ∈ text, c ∉ marks

/-- The members with a description. -/
structure IsDescribed (m : Member) : Prop extends IsWritable m where
  isPlain : ∀ text ∈ m.comments, IsPlain text

variable {m : Member} {style : CommentStyle} {text : List Char}

/-- Words with spaces between them can stand in a description. -/
lemma isPlain_of_all (htrimmed : IsTrimmed text)
    (h : text.all (fun c => isWord c || c == ' ') = true) :
    IsPlain text := by
  refine ⟨htrimmed, fun c hc hmark => ?_⟩
  have hword : marks.any (fun c => isWord c || c == ' ') = false := by decide
  have hfalse := eq_false_of_any hword hmark
  rw [List.all_eq_true.1 h c hc] at hfalse
  cases hfalse

lemma IsPlain.not_mem (h : IsPlain text) {c : Char} (hc : c ∈ marks) : c ∉ text := fun hmem =>
  h.noMark c hmem hc

lemma IsPlain.isComment (h : IsPlain text) : IsComment text where
  isTrimmed := h.isTrimmed
  oneLine := h.not_mem (by decide)
  notEnded := by
    intro hsuffix
    exact h.not_mem (show '/' ∈ marks by decide) (hsuffix.subset (by decide))

/-- A line of a description is no comment by itself. -/
lemma IsPlain.head (h : IsPlain text) :
    commentText? text = none ∧ isContinuation text = false ∧ text.head? ≠ some '\x7d' := by
  obtain ⟨c, rest, rfl⟩ := List.exists_cons_of_ne_nil h.isTrimmed.ne_nil
  have hne : ∀ x ∈ marks, c ≠ x := fun x hx heq =>
    h.not_mem hx (heq ▸ List.mem_cons_self)
  have hslash := hne '/' (by decide)
  have hstar := hne '*' (by decide)
  have hbar := hne '|' (by decide)
  have hamp := hne '&' (by decide)
  have hbrace := hne '\x7d' (by decide)
  simp [commentText?, isContinuation, List.isPrefixOf, Ne.symm hslash, Ne.symm hstar, hbar, hamp,
    hbrace]

lemma IsPlain.isLine (h : IsPlain text) : IsLine text :=
  ⟨h.isTrimmed, h.not_mem (by decide), h.head.2.1, h.head.2.2⟩

/-! ## The lines of a member -/

/-- What stands at the end of a line has no part in how the line starts. -/
lemma IsLine.append {front middle back : List Char} (hfront : IsLine front)
    (hmiddle : '\n' ∉ middle) (hback : IsTrimmed back) (hline : '\n' ∉ back) :
    IsLine (front ++ middle ++ back) := by
  obtain ⟨htrimmed, hbreak, hcontinued, hclosing⟩ := hfront
  obtain ⟨c, rest, rfl⟩ := List.exists_cons_of_ne_nil htrimmed.ne_nil
  refine ⟨htrimmed.append hback, ?_, hcontinued, hclosing⟩
  simp only [List.mem_append, not_or]
  exact ⟨⟨hbreak, hmiddle⟩, hline⟩

lemma openingMark_mem_frontMarks (doc : Bool) : openingMark doc ∈ frontMarks := by
  cases doc <;> decide

lemma isLine_openingMark (doc : Bool) : IsLine (openingMark doc) := by
  cases doc <;> exact ⟨by decide, by decide, by decide, by decide⟩

lemma isLine_enclosedComment (h : IsPlain text) (doc : Bool) :
    IsLine (enclosedComment doc text) := by
  have hmiddle : '\n' ∉ ' ' :: (text ++ [' ']) := by simp [h.isComment.oneLine]
  have hline := (isLine_openingMark doc).append hmiddle (show IsTrimmed "*/".toList by decide)
    (by decide)
  have hassoc : openingMark doc ++ ' ' :: (text ++ [' ']) ++ "*/".toList =
      enclosedComment doc text := by simp [enclosedComment]
  rwa [hassoc] at hline

lemma isLine_innerLine (h : IsPlain text) (starred : Bool) : IsLine (innerLine starred text) := by
  cases starred with
  | false => exact h.isLine
  | true =>
    have hstar : IsLine ['*'] := ⟨by decide, by decide, by decide, by decide⟩
    exact hstar.append (show '\n' ∉ [' '] by decide) h.isTrimmed h.isComment.oneLine

/-- The kinds of lines that there are in all styles. -/
lemma forall_mem_linesIn {P : List Char → Prop} (hdeclaration : P (m.declaration ++ [';']))
    (hopening : ∀ doc, P (openingMark doc)) (hclosing : P "*/".toList)
    (hslashes : ∀ text ∈ m.comments, P (commentLine text))
    (henclosed : ∀ text ∈ m.comments, ∀ doc, P (enclosedComment doc text))
    (hinner : ∀ text ∈ m.comments, ∀ starred, P (innerLine starred text))
    (hahead : m.comments ≠ [] → ∀ doc, ∀ line ∈ linesIn (.ahead doc) m, P line) :
    ∀ line ∈ linesIn style m, P line := by
  have hlast : ∀ line ∈ [m.declaration ++ [';']], P line := List.forall_mem_singleton.2 hdeclaration
  cases style with
  | slashes => exact List.forall_mem_append.2 ⟨List.forall_mem_map.2 hslashes, hlast⟩
  | above doc =>
    have hmap := List.forall_mem_map.2 fun text htext => henclosed text htext doc
    exact List.forall_mem_append.2 ⟨hmap, hlast⟩
  | ahead doc =>
    by_cases hcomments : m.comments = []
    · rw [linesIn, hcomments]
      exact hlast
    · exact hahead hcomments doc
  | block doc starred =>
    have hmap := List.forall_mem_map.2 fun text htext => hinner text htext starred
    exact List.forall_mem_cons.2 ⟨hopening doc, List.forall_mem_append.2
      ⟨hmap, List.forall_mem_cons.2 ⟨hclosing, hlast⟩⟩⟩

/-- In front of a declaration there stands a comment, if there is a description. -/
lemma linesIn_ahead_eq (doc : Bool) {texts : List (List Char)}
    (hcomments : m.comments = text :: texts) :
    linesIn (.ahead doc) m = [enclosedComment doc text ++
      (' ' :: texts.flatMap fun t => enclosedComment doc t ++ [' ']) ++
      (m.declaration ++ [';'])] := by
  simp [linesIn, hcomments]

lemma isLine_of_mem_linesIn_ahead (h : m.IsDescribed) (hcomments : m.comments ≠ []) (doc : Bool) :
    ∀ line ∈ linesIn (.ahead doc) m, IsLine line := by
  obtain ⟨text, texts, hcons⟩ := List.exists_cons_of_ne_nil hcomments
  have hplain : ∀ t ∈ text :: texts, IsPlain t := hcons ▸ h.isPlain
  have hdeclaration := h.toIsWritable.isLine
  have hmiddle : '\n' ∉ ' ' :: texts.flatMap fun t => enclosedComment doc t ++ [' '] := by
    rw [List.mem_cons, List.mem_flatMap, not_or]
    refine ⟨by decide, ?_⟩
    rintro ⟨t, ht, hmem⟩
    have hbreak := (isLine_enclosedComment (hplain t (List.mem_cons_of_mem _ ht)) doc).oneLine
    simp [hbreak] at hmem
  rw [linesIn_ahead_eq doc hcons, List.forall_mem_singleton]
  exact (isLine_enclosedComment (hplain text List.mem_cons_self) doc).append hmiddle
    hdeclaration.isTrimmed hdeclaration.oneLine

lemma isLine_of_mem_linesIn (h : m.IsDescribed) : ∀ line ∈ linesIn style m, IsLine line :=
  forall_mem_linesIn h.toIsWritable.isLine isLine_openingMark
    ⟨by decide, by decide, by decide, by decide⟩
    (fun text htext => (h.isPlain text htext).isComment.isLine)
    (fun text htext => isLine_enclosedComment (h.isPlain text htext))
    (fun text htext => isLine_innerLine (h.isPlain text htext))
    (isLine_of_mem_linesIn_ahead h)

lemma IsPlain.balanced (h : IsPlain text) : Balanced text := by
  refine balanced_of_forall fun c hc => ?_
  have hplain : (!marks.contains c) = true := by simpa using h.noMark c hc
  exact isBracket_eq_false_of (f := fun c => !marks.contains c) (by decide) hplain

lemma IsPlain.balanced_innerLine (h : IsPlain text) (starred : Bool) :
    Balanced (innerLine starred text) := by
  have hstar : Balanced "* ".toList := by decide
  cases starred with
  | false => exact h.balanced
  | true => exact hstar.append h.balanced

/-- A comment in front of a declaration is all that is seen of the line. -/
lemma commentText?_ahead (doc : Bool) (hcomments : m.comments ≠ []) :
    ∃ line text, linesIn (.ahead doc) m = [line] ∧ commentText? line = some text := by
  obtain ⟨text, texts, hcons⟩ := List.exists_cons_of_ne_nil hcomments
  obtain ⟨body, hbody⟩ : ∃ body, linesIn (.ahead doc) m = [openingMark doc ++ ' ' :: body] := by
    rw [linesIn_ahead_eq doc hcons, enclosedComment, List.append_assoc, List.append_assoc]
    exact ⟨_, rfl⟩
  exact ⟨_, _, hbody, commentText?_of_mem_frontMarks (openingMark_mem_frontMarks doc) body⟩

/-- A line that is no comment is balanced. -/
lemma balanced_of_mem_linesIn (h : m.IsDescribed) :
    ∀ line ∈ linesIn style m, commentText? line = none → Balanced line := by
  have hsome : ∀ {line text : List Char}, commentText? line = some text →
      commentText? line = none → Balanced line := by
    intro line text hsome hnone
    rw [hsome] at hnone
    cases hnone
  have hsemicolon : Balanced [';'] := by decide
  apply forall_mem_linesIn
  case hdeclaration => exact fun _ => h.toIsWritable.isPart.balanced.append hsemicolon
  case hopening => exact fun doc _ => by cases doc <;> decide
  case hclosing => exact fun _ => by decide
  case hslashes =>
    exact fun text htext => hsome (commentText?_commentLine (h.isPlain text htext).isComment)
  case henclosed =>
    exact fun text htext doc =>
      hsome (commentText?_append_mark (openingMark_mem_frontMarks doc)
        (h.isPlain text htext).isTrimmed)
  case hinner => exact fun text htext starred _ => (h.isPlain text htext).balanced_innerLine starred
  case hahead =>
    intro hcomments doc
    obtain ⟨line, text, hline, htext⟩ := commentText?_ahead doc hcomments
    rw [hline, List.forall_mem_singleton]
    exact hsome htext

/-! ## What the lines are read as -/

/-- What the lines of a member stand for. -/
def piecesIn (style : CommentStyle) (m : Member) : List Piece :=
  (linesIn style m).flatMap linePieces

lemma linePieces_openingMark (doc : Bool) : linePieces (openingMark doc) = [] := by
  cases doc <;> rfl

/-- A description is found in each style in which its lines start like comments. -/
theorem piecesIn_of_isLinewise (h : m.IsDescribed) (hstyle : style.isLinewise = true) :
    piecesIn style m = piecesOf m := by
  have hdeclaration := linePieces_declaration h.toIsWritable
  have hcomments : ∀ f : List Char → List Char,
      (∀ text, IsPlain text → commentText? (f text) = some text) →
        (m.comments.map f).flatMap linePieces = m.comments.map .comment := fun f hf =>
    flatMap_linePieces_map fun text htext =>
      ⟨hf text (h.isPlain text htext), (h.isPlain text htext).isTrimmed.ne_nil⟩
  cases style with
  | slashes =>
    have hslashes := flatMap_linePieces_comments fun text htext => (h.isPlain text htext).isComment
    rw [piecesIn, linesIn, List.flatMap_append, hslashes, List.flatMap_singleton, hdeclaration,
      piecesOf]
  | above doc =>
    have habove := hcomments (enclosedComment doc) fun text htext =>
      commentText?_append_mark (openingMark_mem_frontMarks doc) htext.isTrimmed
    rw [piecesIn, linesIn, List.flatMap_append, habove, List.flatMap_singleton, hdeclaration,
      piecesOf]
  | ahead doc => cases hstyle
  | block doc starred =>
    obtain rfl : starred = true := hstyle
    have hinner := hcomments (innerLine true) fun text htext =>
      commentText?_append (show ['*'] ∈ frontMarks by decide) htext.isComment
    have hclosing : linePieces "*/".toList = [] := rfl
    rw [piecesIn, linesIn, List.flatMap_cons, linePieces_openingMark, List.flatMap_append, hinner,
      List.flatMap_cons, hclosing, List.flatMap_singleton, hdeclaration, piecesOf]
    rfl

/-- Without a description the style does not matter. -/
lemma piecesIn_of_comments_eq_nil (h : m.IsDescribed) (hcomments : m.comments = []) :
    piecesIn style m = piecesOf m := by
  have hdeclaration := linePieces_declaration h.toIsWritable
  have hpieces : piecesOf m = [.declaration m.declaration] := by rw [piecesOf, hcomments]; rfl
  cases style with
  | slashes => exact piecesIn_of_isLinewise h rfl
  | above doc => exact piecesIn_of_isLinewise h rfl
  | ahead doc =>
    rw [piecesIn, linesIn, hcomments, hpieces, ← hdeclaration]
    exact List.flatMap_singleton _ _
  | block doc starred =>
    have hstarred : CommentStyle.isLinewise (.block doc true) = true := rfl
    rw [← piecesIn_of_isLinewise h hstarred]
    simp only [piecesIn, linesIn, hcomments, List.map_nil]

/-- In front of a declaration a comment hides it. -/
lemma declarationTexts_piecesIn_ahead (doc : Bool) (hcomments : m.comments ≠ []) :
    declarationTexts (piecesIn (.ahead doc) m) = [] := by
  obtain ⟨line, text, hline, hcomment⟩ := commentText?_ahead doc hcomments
  rw [piecesIn, hline, List.flatMap_singleton, linePieces, hcomment]
  simp only
  split <;> rfl

/-- What can be read as a declaration has a colon. -/
lemma readPlain?_eq_none {cs : List Char} (h : ':' ∉ cs) : readPlain? cs = none := by
  cases cs with
  | nil => rfl
  | cons c rest =>
    rw [readPlain?]
    split
    · simp only
      split
      next heq =>
        have hmem : ':' ∈ trimLeft (if (rest.dropWhile continuesName).head? == some '?' then
            (rest.dropWhile continuesName).drop 1 else rest.dropWhile continuesName) := by
          rw [heq]
          exact List.mem_cons_self
        have hdrop := (List.dropWhile_sublist _).subset hmem
        refine absurd (List.mem_cons_of_mem c ?_) h
        split at hdrop
        · exact (List.dropWhile_sublist _).subset (List.mem_of_mem_drop hdrop)
        · exact (List.dropWhile_sublist _).subset hdrop
      · rfl
    · rfl

lemma readDeclaration?_eq_none {cs : List Char} (h : ':' ∉ cs) : readDeclaration? cs = none := by
  rw [readDeclaration?, readPlain?_eq_none h]
  split
  · rfl
  next rest hrest =>
    rw [behindWord?] at hrest
    split at hrest
    · cases hrest
      have hbehind : ':' ∉ trimLeft (cs.drop "readonly".toList.length) := fun hmem =>
        h (List.mem_of_mem_drop ((List.dropWhile_sublist _).subset hmem))
      rw [readPlain?_eq_none hbehind, Option.or_none]
    · cases hrest

/-- By itself a line of a description looks like a declaration, which it is not. -/
lemma IsPlain.linePieces_eq (h : IsPlain text) :
    linePieces text = [.declaration text] ∧ readDeclaration? text = none := by
  refine ⟨?_, readDeclaration?_eq_none (h.not_mem (by decide))⟩
  have hclean : Clean endsDeclaration text := clean_of_forall fun c hc => by
    have hplain : (!marks.contains c) = true := by simpa using h.noMark c hc
    exact endsDeclaration_eq_false_of (f := fun c => !marks.contains c) (by decide) hplain
  rw [linePieces, h.head.1, declarationsOf_eq, split, splitFrom_eq_singleton hclean,
    List.map_singleton, h.isTrimmed.trim_eq]
  simp [h.isTrimmed.ne_nil, h.head.1]

/-- Without stars a description is read as declarations. -/
lemma exists_mem_declarationTexts_piecesIn_block (h : m.IsDescribed) (doc : Bool)
    (hcomments : m.comments ≠ []) :
    ∃ text ∈ declarationTexts (piecesIn (.block doc false) m), readDeclaration? text = none := by
  obtain ⟨text, texts, hcons⟩ := List.exists_cons_of_ne_nil hcomments
  obtain ⟨hpieces, hread⟩ := (h.isPlain text (hcons ▸ List.mem_cons_self)).linePieces_eq
  refine ⟨text, ?_, hread⟩
  have hline : text ∈ linesIn (.block doc false) m := by
    rw [linesIn, hcons]
    simp [innerLine]
  rw [mem_declarationTexts, piecesIn, List.mem_flatMap]
  exact ⟨text, hline, by rw [hpieces]; exact List.mem_singleton_self _⟩

/-- As long as all declarations can be read, there is one of each member that is found, and none of
the others. -/
lemma length_declarationTexts_piecesIn (h : m.IsDescribed)
    (hread : ∀ text ∈ declarationTexts (piecesIn style m), readDeclaration? text ≠ none) :
    (declarationTexts (piecesIn style m)).length = if isFound (style, m) then 1 else 0 := by
  have hone : ∀ comments : List (List Char),
      (declarationTexts (comments.map .comment ++ [.declaration m.declaration])).length = 1 := by
    intro comments
    simp [declarationTexts]
  by_cases hcomments : m.comments = []
  · have hfound : isFound (style, m) = true := by simp [isFound, hcomments]
    rw [piecesIn_of_comments_eq_nil h hcomments, if_pos hfound, piecesOf, hone]
  · cases hstyle : style.isLinewise with
    | true =>
      have hfound : isFound (style, m) = true := by simp [isFound, hstyle]
      rw [piecesIn_of_isLinewise h hstyle, if_pos hfound, piecesOf, hone]
    | false =>
      have hlost : ¬ isFound (style, m) = true := by simp [isFound, hstyle, hcomments]
      rw [if_neg hlost]
      cases style with
      | ahead doc => rw [declarationTexts_piecesIn_ahead doc hcomments, List.length_nil]
      | block doc starred =>
        obtain rfl : starred = false := hstyle
        obtain ⟨text, htext, hnone⟩ := exists_mem_declarationTexts_piecesIn_block h doc hcomments
        exact absurd hnone (hread text htext)
      | slashes => cases hstyle
      | above doc => cases hstyle

/-! ## Members in styles -/

variable {sms : List (CommentStyle × Member)}

/-- The lines of members are read one by one. -/
theorem group_linesIn (h : ∀ sm ∈ sms, sm.2.IsDescribed) :
    group [] (sms.flatMap fun sm => linesIn sm.1 sm.2) =
      sms.flatMap fun sm => piecesIn sm.1 sm.2 := by
  rw [group_eq_flatMap, List.flatMap_assoc]
  · rfl
  · intro line hline hnone
    obtain ⟨sm, hsm, hmem⟩ := List.mem_flatMap.1 hline
    exact Int.le_of_eq (balanced_of_mem_linesIn (h sm hsm) line hmem hnone).closes

lemma length_declarationTexts_flatMap (h : ∀ sm ∈ sms, sm.2.IsDescribed)
    (hread : ∀ text ∈ declarationTexts (sms.flatMap fun sm => piecesIn sm.1 sm.2),
      readDeclaration? text ≠ none) :
    (declarationTexts (sms.flatMap fun sm => piecesIn sm.1 sm.2)).length = sms.countP isFound := by
  rw [declarationTexts_flatMap] at hread ⊢
  induction sms with
  | nil => rfl
  | cons sm sms ih =>
    rw [List.flatMap_cons, List.forall_mem_append] at hread
    have hrest := ih (fun x hx => h x (List.mem_cons_of_mem _ hx)) hread.2
    rw [List.flatMap_cons, List.length_append, hrest,
      length_declarationTexts_piecesIn (h sm List.mem_cons_self) hread.1, List.countP_cons,
      Nat.add_comm]

end Member

namespace Interface

open Member

variable {component : List Char} {sms : List (CommentStyle × Member)}
  {lines : List (Nat × List Char)}

lemma exists_extract_linesIn_iff (hcomponent : ∀ c ∈ component, isWord c = true)
    (h : ∀ sm ∈ sms, sm.2.IsDescribed)
    (hlines : lines.map (·.2) = sms.flatMap fun sm => linesIn sm.1 sm.2) (rest : List Char)
    (props : List (String × Bool × Option PropType × String)) :
    (∃ doc, extract (String.ofList (printLines component (lines.map indented) ++ rest)) = .ok doc ∧
        doc.props.map stated = props) ↔
      Declares stated (sms.flatMap fun sm => piecesIn sm.1 sm.2) props := by
  have hline : ∀ line ∈ lines.map (·.2), IsLine line := by
    intro line hmem
    rw [hlines] at hmem
    obtain ⟨sm, hsm, hmem⟩ := List.mem_flatMap.1 hmem
    exact isLine_of_mem_linesIn (h sm hsm) line hmem
  rw [exists_extract_indented_iff hcomponent hline, hlines, group_linesIn h]

/-- However far the lines are indented, all members are extracted with their descriptions just when
each description is written line by line, or there is none. -/
theorem stated_extract_linesIn_iff (hcomponent : ∀ c ∈ component, isWord c = true)
    (h : ∀ sm ∈ sms, sm.2.IsDescribed)
    (hlines : lines.map (·.2) = sms.flatMap fun sm => linesIn sm.1 sm.2) (rest : List Char) :
    (∃ doc, extract (String.ofList (printLines component (lines.map indented) ++ rest)) = .ok doc ∧
        doc.props.map stated = sms.map fun sm =>
          (String.ofList sm.2.name, !sm.2.isOptional, some (.read sm.2.type),
            String.ofList (joinWith '\n' sm.2.comments))) ↔
      ∀ sm ∈ sms, sm.1.isLinewise = true ∨ sm.2.comments = [] := by
  have hfound : (∀ sm ∈ sms, sm.1.isLinewise = true ∨ sm.2.comments = []) ↔
      sms.countP isFound = sms.length := by
    rw [List.countP_eq_length]
    refine forall₂_congr fun sm _ => ?_
    rw [isFound, Bool.or_eq_true, List.isEmpty_iff]
  rw [exists_extract_linesIn_iff hcomponent h hlines]
  constructor
  · rintro ⟨ms, hms, hprops⟩
    have hread := forall₂_of_ofPieces hms
    have hcount : ms.length = sms.length := by simpa using congrArg List.length hprops
    have hreadable := ((List.forall₂_and_left (p := fun text => readDeclaration? text ≠ none) _ _).1
      (hread.imp fun text m hm => ⟨by simp [hm], hm⟩)).1
    rw [hfound, ← hcount, ← hread.length_eq, length_declarationTexts_flatMap h hreadable]
  · intro hall
    have hpieces : (sms.flatMap fun sm => piecesIn sm.1 sm.2) =
        (sms.map (·.2)).flatMap piecesOf := by
      rw [List.flatMap_map]
      refine List.flatMap_congr fun sm hsm => ?_
      rcases hall sm hsm with hstyle | hcomments
      · exact piecesIn_of_isLinewise (h sm hsm) hstyle
      · exact piecesIn_of_comments_eq_nil (h sm hsm) hcomments
    have hwritable : ∀ m ∈ sms.map (·.2), m.IsWritable :=
      List.forall_mem_map.2 fun sm hsm => (h sm hsm).toIsWritable
    refine ⟨sms.map (·.2), by rw [hpieces, ofPieces_flatMap hwritable], ?_⟩
    rw [List.map_map]
    rfl

/-- The description in
```
interface CardProps {
  /**
   * Shown
   * in bold
   */
  label: string;
}
```
is extracted. -/
theorem stated_extract_linesIn_labelMember :
    let lines := [(2, "/**".toList), (3, "* Shown".toList), (3, "* in bold".toList),
      (3, "*/".toList), (2, "label: string;".toList)]
    ∃ doc, extract (String.ofList (printLines "Card".toList (lines.map indented) ++ ['\n'])) =
        .ok doc ∧
      doc.props.map stated = [("label", true, some (.primitive "string"), "Shown\nin bold")] := by
  have hplain : ∀ text ∈ ["Shown".toList, "in bold".toList], IsPlain text :=
    List.forall_mem_cons.2 ⟨isPlain_of_all (by decide) (by decide),
      List.forall_mem_singleton.2 (isPlain_of_all (by decide) (by decide))⟩
  have hmember : (labelMember ["Shown".toList, "in bold".toList]).IsDescribed :=
    ⟨labelMember_isWritable _, hplain⟩
  have hread : PropType.read "string".toList = .primitive "string" :=
    PropType.read_name (by decide) (by decide)
  have hcomponent : ∀ c ∈ "Card".toList, isWord c = true := List.all_eq_true.1 (by decide)
  intro lines
  have hlines : lines.map (·.2) =
      [(CommentStyle.block true true, labelMember ["Shown".toList, "in bold".toList])].flatMap
        fun sm => linesIn sm.1 sm.2 := by
    decide
  obtain ⟨doc, hdoc, hprops⟩ := (stated_extract_linesIn_iff hcomponent
    (List.forall_mem_singleton.2 hmember) hlines ['\n']).2
      (List.forall_mem_singleton.2 (.inl rfl))
  refine ⟨doc, hdoc, ?_⟩
  rw [hprops, List.map_singleton, labelMember, hread]
  rfl

/-- The member in
```
interface CardProps {
  /** Shown */ label: string;
}
```
is not extracted. -/
theorem extract_linesIn_ahead :
    let lines := (linesIn (.ahead true) (labelMember ["Shown".toList])).map (2, ·)
    ∃ doc, extract (String.ofList (printLines "Card".toList (lines.map indented) ++ ['\n'])) =
        .ok doc ∧ doc.props = [] := by
  have hplain : ∀ text ∈ ["Shown".toList], IsPlain text :=
    List.forall_mem_singleton.2 (isPlain_of_all (by decide) (by decide))
  have hmember : (labelMember ["Shown".toList]).IsDescribed := ⟨labelMember_isWritable _, hplain⟩
  have hcomponent : ∀ c ∈ "Card".toList, isWord c = true := List.all_eq_true.1 (by decide)
  have hlines : ((linesIn (.ahead true) (labelMember ["Shown".toList])).map (2, ·)).map (·.2) =
      [(CommentStyle.ahead true, labelMember ["Shown".toList])].flatMap
        fun sm => linesIn sm.1 sm.2 := by
    decide
  have hpieces : ([(CommentStyle.ahead true, labelMember ["Shown".toList])].flatMap
      fun sm => piecesIn sm.1 sm.2) = [.comment "Shown */ label: string;".toList] := by
    decide
  obtain ⟨doc, hdoc, hprops⟩ := (exists_extract_linesIn_iff hcomponent
    (List.forall_mem_singleton.2 hmember) hlines ['\n'] []).2 ⟨[], by rw [hpieces]; rfl, rfl⟩
  exact ⟨doc, hdoc, List.map_eq_nil_iff.1 hprops⟩

end Interface

end StyleGuide
