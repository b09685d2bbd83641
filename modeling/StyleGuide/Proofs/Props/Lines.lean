import StyleGuide.Proofs.Props.Member
import StyleGuide.Props.Interface

/-!
# Interfaces line by line

The body of an interface is found by its first line that starts with a closing brace, and it is read
line by line. As long as no line leaves a bracket open, each is read by itself: it is a comment, or
it holds declarations.

## Main definitions

* `Member.IsBodyLine`, `Member.IsLine`: the lines of which a body can consist.
* `Member.linePieces`: the comment or the declarations on a line.
* `Interface.printLines`: the source of an interface with these lines.
* `Interface.Declares`: the properties that pieces stand for.

## Main results

* `Member.joinedLines_eq_map`: the lines of a body are found again.
* `Member.group_eq_flatMap`: lines that leave no bracket open are read one by one.
* `Interface.exists_extract_iff`: what is extracted from an interface that is written in lines.
-/

namespace StyleGuide

namespace Member

open StyleGuide.Bracket

/-! ## Lines -/

/-- Lines with a line break behind each of them. -/
def endLines (lines : List (List Char)) : List Char := lines.flatMap (· ++ ['\n'])

lemma endLines_cons (line : List Char) (lines : List (List Char)) :
    endLines (line :: lines) = line ++ '\n' :: endLines lines := by
  simp [endLines]

lemma endLines_append (lines others : List (List Char)) :
    endLines (lines ++ others) = endLines lines ++ endLines others :=
  List.flatMap_append

/-- A text is told by its lines, but for the break behind the last one. -/
lemma endLines_cut (cs : List Char) : endLines (cut (· == '\n') cs) = cs ++ ['\n'] := by
  have hjoin : ∀ lines ≠ [], endLines lines = joinWith '\n' lines ++ ['\n'] := by
    intro lines hne
    fun_induction joinWith '\n' lines with
    | case1 => exact absurd rfl hne
    | case2 line => simp [endLines]
    | case3 line next lines ih => rw [endLines_cons, ih (List.cons_ne_nil _ _)]; simp
  rw [hjoin _ (cut_ne_nil _ cs), joinWith_cut]

lemma cut_endLines {lines : List (List Char)} (h : ∀ line ∈ lines, '\n' ∉ line) :
    cut (· == '\n') (endLines lines) = lines ++ [[]] := by
  induction lines with
  | nil => rfl
  | cons line lines ih =>
    have hline : ∀ c ∈ line, (c == '\n') = false := fun c hc =>
      beq_eq_false_iff_ne.2 fun heq => h line List.mem_cons_self (heq ▸ hc)
    rw [endLines_cons, cut_append_cons _ _ rfl, cut_eq_singleton hline,
      ih fun l hl => h l (List.mem_cons_of_mem _ hl)]
    rfl

/-- Lines that do not go on with the one above stay as they are. -/
lemma foldl_addLine {lines : List (List Char)} (h : ∀ line ∈ lines, isContinuation line = false)
    (done : List (List Char)) : lines.foldl addLine done = lines.reverse ++ done := by
  induction lines generalizing done with
  | nil => rfl
  | cons line lines ih =>
    have hline : addLine done line = line :: done := by
      cases done with
      | nil => rfl
      | cons above others => simp [addLine, h line List.mem_cons_self]
    rw [List.foldl_cons, hline, ih fun l hl => h l (List.mem_cons_of_mem _ hl), List.reverse_cons,
      List.append_assoc, List.singleton_append]

/-- The lines of which a body can consist: they neither end it nor go on with the line above. -/
structure IsBodyLine (line : List Char) : Prop where
  oneLine : '\n' ∉ line
  notClosing : line.head? ≠ some '\x7d'
  notBlank : trim line ≠ []
  notContinued : isContinuation (trim line) = false

/-- The lines of a body are found again, without the blanks around them. -/
theorem joinedLines_eq_map {lines : List (List Char)} (h : ∀ line ∈ lines, IsBodyLine line) :
    joinedLines ('\n' :: endLines lines) = lines.map trim := by
  have hcut : cut (· == '\n') ('\n' :: endLines lines) = [] :: (lines ++ [[]]) := by
    rw [← cut_endLines fun line hline => (h line hline).oneLine]
    rfl
  have hfilter : (lines.map trim).filter (· ≠ []) = lines.map trim := by
    rw [List.filter_eq_self]
    exact List.forall_mem_map.2 fun line hline => by simpa using (h line hline).notBlank
  have hblank : trim [] = [] := rfl
  have hstay : ∀ text ∈ lines.map trim, isContinuation text = false :=
    List.forall_mem_map.2 fun line hline => (h line hline).notContinued
  unfold joinedLines
  simp only [hcut, List.map_cons, List.map_append, hblank, List.map_nil]
  rw [List.filter_cons_of_neg (by simp), List.filter_append, hfilter]
  simp [foldl_addLine hstay]

/-- The texts that can stand on a line of their own: they neither go on with the line above nor end
the body. -/
structure IsLine (text : List Char) : Prop where
  isTrimmed : IsTrimmed text
  oneLine : '\n' ∉ text
  notContinued : isContinuation text = false
  notClosing : text.head? ≠ some '\x7d'

/-- A text behind some spaces. -/
def indented (line : Nat × List Char) : List Char := List.replicate line.1 ' ' ++ line.2

lemma trim_indented (line : Nat × List Char) : trim (indented line) = trim line.2 := by
  apply trim_append_left
  intro b hb
  rw [List.eq_of_mem_replicate hb]
  rfl

/-- How far a line is indented does not matter. -/
lemma isBodyLine_indented {line : Nat × List Char} (h : IsBodyLine line.2) :
    IsBodyLine (indented line) where
  oneLine := by
    rw [indented, List.mem_append, not_or]
    refine ⟨fun hmem => ?_, h.oneLine⟩
    cases List.eq_of_mem_replicate hmem
  notClosing := by
    obtain ⟨n, text⟩ := line
    cases n with
    | zero => exact h.notClosing
    | succ n => simp [indented, List.replicate_succ]
  notBlank := by
    rw [trim_indented]
    exact h.notBlank
  notContinued := by
    rw [trim_indented]
    exact h.notContinued

lemma IsLine.isBodyLine {text : List Char} (h : IsLine text) : IsBodyLine text where
  oneLine := h.oneLine
  notClosing := h.notClosing
  notBlank := by
    rw [h.isTrimmed.trim_eq]
    exact h.isTrimmed.ne_nil
  notContinued := by
    rw [h.isTrimmed.trim_eq]
    exact h.notContinued

/-- Texts that stand behind spaces, one on a line, are found again. -/
theorem joinedLines_endLines {lines : List (Nat × List Char)} (h : ∀ line ∈ lines, IsLine line.2) :
    joinedLines ('\n' :: endLines (lines.map indented)) = lines.map (·.2) := by
  have hlines : ∀ line ∈ lines.map indented, IsBodyLine line :=
    List.forall_mem_map.2 fun line hline => isBodyLine_indented (h line hline).isBodyLine
  rw [joinedLines_eq_map hlines, List.map_map]
  refine List.map_congr_left fun line hline => ?_
  rw [Function.comp_apply, trim_indented, (h line hline).isTrimmed.trim_eq]

/-! ## Lines by themselves -/

/-- What a line by itself stands for: a comment, which may be empty, or declarations. -/
def linePieces (line : List Char) : List Piece :=
  match commentText? line with
  | some text => if text = [] then [] else [.comment text]
  | none => (declarationsOf line).map .declaration

/-- A line that leaves no bracket open is read by itself. -/
lemma group_line {line : List Char} (h : commentText? line = none → depthAfter line ≤ 0)
    (rest : List (List Char)) : group [] (line :: rest) = linePieces line ++ group [] rest := by
  have hglue : glue [] line = line := rfl
  have hown : ownComment? [] line = commentText? line := rfl
  rw [group, linePieces, hown, hglue]
  cases hcomment : commentText? line with
  | some text =>
    by_cases htext : text = []
    · simp [htext]
    · simp [htext]
  | none => simp only [Int.not_lt.2 (h hcomment), if_false]

/-- Lines that leave no bracket open are read one by one. -/
theorem group_eq_flatMap {lines : List (List Char)}
    (h : ∀ line ∈ lines, commentText? line = none → depthAfter line ≤ 0) :
    group [] lines = lines.flatMap linePieces := by
  induction lines with
  | nil => rfl
  | cons line lines ih =>
    rw [group_line (h line List.mem_cons_self), List.flatMap_cons,
      ih fun l hl => h l (List.mem_cons_of_mem _ hl)]

lemma linePieces_of_commentText? {line text : List Char} (h : commentText? line = some text)
    (hne : text ≠ []) : linePieces line = [.comment text] := by
  rw [linePieces, h]
  exact if_neg hne

/-- Comments that are each on a line are read as what they say. -/
lemma flatMap_linePieces_map {f : List Char → List Char} {texts : List (List Char)}
    (h : ∀ text ∈ texts, commentText? (f text) = some text ∧ text ≠ []) :
    (texts.map f).flatMap linePieces = texts.map .comment := by
  rw [List.flatMap_map, List.map_eq_flatMap]
  exact List.flatMap_congr fun text htext =>
    linePieces_of_commentText? (h text htext).1 (h text htext).2

/-! ## Members from pieces -/

/-- The declarations among some pieces. -/
def declarationTexts (ps : List Piece) : List (List Char) :=
  ps.filterMap fun
    | .comment _ => none
    | .declaration text => some text

lemma mem_declarationTexts {text : List Char} {ps : List Piece} :
    text ∈ declarationTexts ps ↔ .declaration text ∈ ps := by
  rw [declarationTexts, List.mem_filterMap]
  constructor
  · rintro ⟨p, hp, heq⟩
    cases p <;> cases heq
    exact hp
  · intro h
    exact ⟨_, h, rfl⟩

lemma declarationTexts_flatMap {α : Type} (f : α → List Piece) (xs : List α) :
    declarationTexts (xs.flatMap f) = xs.flatMap fun x => declarationTexts (f x) :=
  List.filterMap_flatMap

/-- There is a member for each declaration, in order. -/
lemma forall₂_of_ofPieces {comments : List (List Char)} {ps : List Piece} {ms : List Member}
    (h : ofPieces comments ps = .ok ms) :
    List.Forall₂ (fun text m => readDeclaration? text = some (m.name, m.isOptional, m.type))
      (declarationTexts ps) ms := by
  induction ps generalizing comments ms with
  | nil =>
    cases h
    exact .nil
  | cons p ps ih =>
    cases p with
    | comment text =>
      rw [ofPieces] at h
      exact ih h
    | declaration text =>
      rw [ofPieces] at h
      split at h
      · cases h
      next name isOptional type hread =>
        cases hrest : ofPieces [] ps with
        | error e =>
          rw [hrest] at h
          cases h
        | ok others =>
          rw [hrest] at h
          cases h
          exact .cons hread (ih hrest)

end Member

namespace Interface

open Member

/-! ## The body of an interface -/

lemma firstMatch_eq {α : Type} {f : List Char → Option α} {cs : List Char} {a : α}
    (h : f cs = some a) : firstMatch f cs = some a := by
  cases cs with
  | nil => exact h
  | cons c cs => rw [firstMatch, h, Option.some_or]

lemma behind?_append (w : String) (cs : List Char) : behind? w (w.toList ++ cs) = some cs := by
  have hprefix : w.toList.isPrefixOf (w.toList ++ cs) = true :=
    List.isPrefixOf_iff_prefix.2 (List.prefix_append _ _)
  rw [behind?, if_pos hprefix, ← String.length_toList, List.drop_left]

/-- A line that does not start with a brace does not end the body. -/
lemma beforeClosing?_append {line : List Char} (hbreak : '\n' ∉ line) {before : Char}
    (hclosing : before = '\n' → line.head? ≠ some '\x7d') (rest : List Char) :
    beforeClosing? before (line ++ '\n' :: rest) =
      (beforeClosing? '\n' rest).map (line ++ '\n' :: ·) := by
  induction line generalizing before with
  | nil => simp [beforeClosing?]
  | cons c line ih =>
    rw [List.mem_cons, not_or] at hbreak
    have hc : ¬ (c = '\x7d' ∧ before = '\n') := by
      rintro ⟨rfl, rfl⟩
      exact hclosing rfl rfl
    -- Behind the first character no other one of the line is at the start of a line.
    have hnext : c = '\n' → line.head? ≠ some '\x7d' := fun heq => absurd heq.symm hbreak.1
    rw [List.cons_append, beforeClosing?, if_neg hc, ih hbreak.2 hnext, Option.map_map]
    rfl

/-- The body ends at the first brace at the start of a line. -/
theorem beforeClosing?_endLines {lines : List (List Char)}
    (h : ∀ line ∈ lines, '\n' ∉ line ∧ line.head? ≠ some '\x7d') (rest : List Char) :
    beforeClosing? '\n' (endLines lines ++ '\x7d' :: rest) = some (endLines lines) := by
  induction lines with
  | nil => rfl
  | cons line lines ih =>
    obtain ⟨hbreak, hclosing⟩ := h line List.mem_cons_self
    have hrest := ih fun l hl => h l (List.mem_cons_of_mem _ hl)
    rw [endLines_cons, List.append_assoc, List.cons_append,
      beforeClosing?_append hbreak fun _ => hclosing, hrest]
    rfl

/-- The name of the interface ends where the blank behind it is. -/
lemma behindHeader?_append {name : List Char} (hname : ∀ c ∈ name, isWord c = true)
    (hsuffix : "Props".toList <:+ name) (rest : List Char) :
    behindHeader? ("interface".toList ++ ' ' :: (name ++ ' ' :: rest)) = some (' ' :: rest) := by
  have hspace : ¬ isWord ' ' = true := by decide
  have hblank : trimLeft (' ' :: (name ++ ' ' :: rest)) = name ++ ' ' :: rest := by
    obtain ⟨c, tail, rfl⟩ : ∃ c tail, name = c :: tail := by
      apply List.exists_cons_of_ne_nil
      rintro rfl
      cases List.suffix_nil.1 hsuffix
    rw [trimLeft_cons_of_isBlank rfl, List.cons_append,
      trimLeft_cons (isBlank_eq_false_of_isWord (hname c List.mem_cons_self))]
  have htake : (name ++ ' ' :: rest).takeWhile isWord = name := by
    rw [List.takeWhile_append_of_pos hname, List.takeWhile_cons_of_neg hspace, List.append_nil]
  have hblanks : behindBlanks? (' ' :: (name ++ ' ' :: rest)) = some (name ++ ' ' :: rest) := by
    rw [behindBlanks?, hblank]
    rfl
  rw [behindHeader?, behind?_append]
  simp only [Option.bind_eq_bind, Option.bind_some, hblanks, htake,
    List.isSuffixOf_iff_suffix.2 hsuffix, if_true, List.drop_left]

variable {component : List Char}

/-- The source of an interface with these lines between its braces. -/
def printLines (component : List Char) (lines : List (List Char)) : List Char :=
  "interface".toList ++ ' ' :: (component ++ "Props".toList ++
    ' ' :: '\x7b' :: ('\n' :: endLines lines ++ ['\x7d']))

/-- The lines are found, whatever stands behind the interface. -/
theorem body?_printLines {lines : List (List Char)} (hcomponent : ∀ c ∈ component, isWord c = true)
    (h : ∀ line ∈ lines, IsBodyLine line) (rest : List Char) :
    body? (printLines component lines ++ rest) = some ('\n' :: endLines lines) := by
  have hbody : beforeClosing? '\x7b' ('\n' :: endLines lines ++ '\x7d' :: rest) =
      some ('\n' :: endLines lines) := by
    rw [List.cons_append, beforeClosing?, if_neg (by decide),
      beforeClosing?_endLines fun line hline => ⟨(h line hline).oneLine, (h line hline).notClosing⟩]
    rfl
  have hname : ∀ c ∈ component ++ "Props".toList, isWord c = true := by
    have hword : ∀ c ∈ "Props".toList, isWord c = true := List.all_eq_true.1 (by decide)
    exact fun c hc => (List.mem_append.1 hc).elim (hcomponent c) (hword c)
  have hheader := behindHeader?_append hname (List.suffix_append _ _)
    ('\x7b' :: ('\n' :: endLines lines ++ '\x7d' :: rest))
  have hassoc : ∀ front name inside : List Char,
      front ++ ' ' :: (name ++ ' ' :: '\x7b' :: (inside ++ ['\x7d'])) ++ rest =
        front ++ ' ' :: (name ++ ' ' :: '\x7b' :: (inside ++ '\x7d' :: rest)) := by
    simp
  have hprint : printLines component lines ++ rest =
      "interface".toList ++ ' ' :: (component ++ "Props".toList ++
        ' ' :: '\x7b' :: ('\n' :: endLines lines ++ '\x7d' :: rest)) :=
    hassoc "interface".toList (component ++ "Props".toList) ('\n' :: endLines lines)
  rw [← hprint] at hheader
  rw [body?, firstMatch_eq hheader]
  simpa using hbody

/-! ## What is extracted -/

/-- A default value changes nothing else that is known of a property. -/
lemma map_setDefault {α : Type} {f : String × PropDescriptor → α}
    (hf : ∀ name prop v, f (name, { prop with default := v }) = f (name, prop))
    (props : List (String × PropDescriptor)) (d : List Char × List Char) :
    (setDefault props d).map f = props.map f := by
  induction props with
  | nil => rfl
  | cons p props ih =>
    obtain ⟨name, prop⟩ := p
    rw [setDefault]
    split
    · rw [List.map_cons, List.map_cons, hf]
    · rw [List.map_cons, List.map_cons, ih]

lemma map_foldl_setDefault {α : Type} {f : String × PropDescriptor → α}
    (hf : ∀ name prop v, f (name, { prop with default := v }) = f (name, prop))
    (props : List (String × PropDescriptor)) (ds : List (List Char × List Char)) :
    (ds.foldl setDefault props).map f = props.map f := by
  induction ds generalizing props with
  | nil => rfl
  | cons d ds ih => rw [List.foldl_cons, ih, map_setDefault hf]

/-- What a member says about its property: all but the default value, which is found elsewhere. -/
def stated (p : String × PropDescriptor) : String × Bool × Option PropType × String :=
  (p.1, p.2.required, p.2.type, p.2.description)

lemma stated_default (name : String) (prop : PropDescriptor) (v : Option DefaultValue) :
    stated (name, { prop with default := v }) = stated (name, prop) := rfl

/-- The properties that pieces stand for are `props`, as far as `f` tells them apart. -/
def Declares {α : Type} (f : String × PropDescriptor → α) (ps : List Piece) (props : List α) :
    Prop :=
  ∃ ms, ofPieces [] ps = .ok ms ∧ ms.map (fun m => f (PropType.ofMember m (.read m.type))) = props

/-- A declaration in front of others stands for one property. -/
lemma declares_declaration_cons_iff {α : Type} {f : String × PropDescriptor → α} {text : List Char}
    {ps : List Piece} {prop : α} {props : List α} :
    Declares f (.declaration text :: ps) (prop :: props) ↔
      ∃ name isOptional type, readDeclaration? text = some (name, isOptional, type) ∧
        f (PropType.ofMember ⟨name, isOptional, type, []⟩ (.read type)) = prop ∧
          Declares f ps props := by
  rw [Declares, ofPieces]
  cases readDeclaration? text with
  | none => simp
  | some d =>
    obtain ⟨name, isOptional, type⟩ := d
    simp only [Declares]
    cases ofPieces [] ps with
    | error text => simp [Except.map]
    | ok ms =>
      simp [Except.map, and_assoc]

/-- From an interface that is written in lines there is extracted what its lines stand for. -/
theorem extract_printLines {lines : List (List Char)}
    (hcomponent : ∀ c ∈ component, isWord c = true)
    (h : ∀ line ∈ lines, IsBodyLine line) (rest : List Char) :
    let source := printLines component lines ++ rest
    extract (String.ofList source) =
      match ofPieces [] (group [] (lines.map trim)) with
      | .error text => .error (.invalidDeclaration (String.ofList text))
      | .ok ms =>
        .ok ⟨String.ofList (description source),
          (defaults source).foldl setDefault
            (ms.map fun m => PropType.ofMember m (.read m.type))⟩ := by
  have hread : readAll ('\n' :: endLines lines) = ofPieces [] (group [] (lines.map trim)) := by
    rw [readAll, pieces, joinedLines_eq_map h]
  intro source
  have hbody : body? source = some ('\n' :: endLines lines) := body?_printLines hcomponent h rest
  cases hpieces : ofPieces [] (group [] (lines.map trim)) with
  | error text =>
    rw [hpieces] at hread
    simp only [extract, String.toList_ofList, hbody, hread]
  | ok ms =>
    rw [hpieces] at hread
    simp only [extract, String.toList_ofList, hbody, hread]

/-- As far as default values do not matter, only the lines do. -/
theorem exists_extract_iff {α : Type} {f : String × PropDescriptor → α}
    (hf : ∀ name prop v, f (name, { prop with default := v }) = f (name, prop))
    {lines : List (List Char)} (hcomponent : ∀ c ∈ component, isWord c = true)
    (h : ∀ line ∈ lines, IsBodyLine line) (rest : List Char) (props : List α) :
    (∃ doc, extract (String.ofList (printLines component lines ++ rest)) = .ok doc ∧
        doc.props.map f = props) ↔ Declares f (group [] (lines.map trim)) props := by
  rw [Declares, extract_printLines hcomponent h]
  cases ofPieces [] (group [] (lines.map trim)) with
  | error text => simp
  | ok ms => simp [map_foldl_setDefault hf, Function.comp_def]

/-- How far the lines are indented does not matter. -/
lemma exists_extract_indented_iff {lines : List (Nat × List Char)}
    (hcomponent : ∀ c ∈ component, isWord c = true) (h : ∀ text ∈ lines.map (·.2), IsLine text)
    (rest : List Char) (props : List (String × Bool × Option PropType × String)) :
    (∃ doc, extract (String.ofList (printLines component (lines.map indented) ++ rest)) = .ok doc ∧
        doc.props.map stated = props) ↔ Declares stated (group [] (lines.map (·.2))) props := by
  have hbody : ∀ line ∈ lines.map indented, IsBodyLine line :=
    List.forall_mem_map.2 fun line hline =>
      isBodyLine_indented (h _ (List.mem_map_of_mem hline)).isBodyLine
  have htrim : (lines.map indented).map trim = lines.map (·.2) := by
    rw [List.map_map]
    refine List.map_congr_left fun line hline => ?_
    rw [Function.comp_apply, trim_indented, (h _ (List.mem_map_of_mem hline)).isTrimmed.trim_eq]
  rw [exists_extract_iff stated_default hcomponent hbody, htrim]

end Interface

end StyleGuide
