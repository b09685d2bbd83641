import StyleGuide.Proofs.Props.Bracket
import StyleGuide.Proofs.Text.Blank
import StyleGuide.Proofs.Text.Cut
import StyleGuide.Props.Member

/-!
# Declarations that are written down

A declaration is a name, a colon and the text of a type, with a question mark in front of the colon
where the member is optional. When the name and the type are what they should be, the declaration is
read as these, and several of them with separators between are told apart.

## Main definitions

* `Member.IsName`, `Member.IsTypeText`: the names, and the texts that can stand for a type.
* `Member.declaration`: a declaration as a text.

## Main results

* `Bracket.map_trim_splitFrom_intercalate`: parts with separators and blanks between them are told
  apart.
* `Member.readDeclaration?_declaration`: a declaration is read as what it was written from.
* `Member.declarationsOf_intercalate`: declarations on one line.
-/

namespace StyleGuide

namespace Bracket

/-! ## Parts between separators -/

lemma isBracket_eq_false_of_isBlank {c : Char} (h : isBlank c = true) : isBracket c = false :=
  isBracket_eq_false_of (by decide) h

/-- A part that can be told apart from others by the separators between them. -/
structure IsPart (sep : Char → Bool) (cs : List Char) : Prop where
  isTrimmed : IsTrimmed cs
  balanced : Balanced cs
  clean : Clean sep cs

variable {sep : Char → Bool} {p : Place} {cs before after : List Char}

lemma balanced_of_isBlank (h : ∀ b ∈ cs, isBlank b = true) : Balanced cs :=
  balanced_of_forall fun b hb => isBracket_eq_false_of_isBlank (h b hb)

/-- Blanks around a part do not count. -/
lemma IsPart.along_around (hsep : ∀ b, isBlank b = true → sep b = false)
    (hbefore : ∀ b ∈ before, isBlank b = true) (hafter : ∀ b ∈ after, isBlank b = true)
    (h : IsPart sep cs) (hp : p.depth = 0) :
    Along (fun d c => d = 0 → sep c = false) p (before ++ cs ++ after) ∧
      (p.after (before ++ cs ++ after)).depth = 0 := by
  have hfront := balanced_of_isBlank hbefore
  have hback := balanced_of_isBlank hafter
  have hmiddle : (p.after before).depth = 0 := (hfront.after_depth p).trans hp
  refine ⟨along_append.2 ⟨along_append.2 ⟨?_, ?_⟩, ?_⟩, ?_⟩
  · exact along_of_forall fun b hb _ _ => hsep b (hbefore b hb)
  · exact h.clean.along h.balanced.head_ne hmiddle
  · exact along_of_forall fun b hb _ _ => hsep b (hafter b hb)
  · rw [after_append, after_append, hback.after_depth, h.balanced.after_depth, hmiddle]

/-- Parts with a separator and blanks between each two are told apart. -/
theorem map_trim_splitFrom_intercalate (front before after : List Char) {s : Char}
    {parts : List (List Char)} (hsep : ∀ b, isBlank b = true → sep b = false) (hs : sep s = true)
    (hbracket : isBracket s = false) (hfront : ∀ b ∈ front, isBlank b = true)
    (hbefore : ∀ b ∈ before, isBlank b = true) (hafter : ∀ b ∈ after, isBlank b = true)
    (hne : parts ≠ []) (h : ∀ q ∈ parts, IsPart sep q) (hp : p.depth = 0) :
    (splitFrom sep p (front ++ (before ++ s :: after).intercalate parts)).map trim = parts := by
  induction parts generalizing p front with
  | nil => exact absurd rfl hne
  | cons q parts ih =>
    have hq := h q List.mem_cons_self
    cases parts with
    | nil =>
      have hnil : ∀ b ∈ ([] : List Char), isBlank b = true := by simp
      obtain ⟨hclean, -⟩ := hq.along_around hsep hfront hnil hp
      rw [List.intercalate_singleton, ← List.append_nil (front ++ q),
        splitFrom_eq_singleton hclean, List.map_singleton, hq.isTrimmed.trim_around hfront hnil]
    | cons q' parts =>
      obtain ⟨hclean, hdepth⟩ := hq.along_around hsep hfront hbefore hp
      have hnext : ((p.after (front ++ q ++ before)).next s).depth = 0 :=
        (next_depth_of_not_isBracket _ hbracket).trans hdepth
      have hassoc : front ++ (before ++ s :: after).intercalate (q :: q' :: parts) =
          (front ++ q ++ before) ++
            s :: (after ++ (before ++ s :: after).intercalate (q' :: parts)) := by
        simp [List.intercalate_cons_cons]
      rw [hassoc, splitFrom_append hclean, splitFrom_cons hdepth hs, prepend, List.append_nil,
        List.map_cons, hq.isTrimmed.trim_around hfront hbefore,
        ih after hafter (List.cons_ne_nil _ _) (fun r hr => h r (List.mem_cons_of_mem _ hr)) hnext]

/-! ## Parts together -/

lemma exists_intercalate_cons (between q : List Char) (parts : List (List Char)) :
    ∃ more, between.intercalate (q :: parts) = q ++ more := by
  cases parts with
  | nil => exact ⟨[], by simp⟩
  | cons q' parts => exact ⟨_, by rw [List.intercalate_cons_cons, List.append_assoc]⟩

lemma balanced_intercalate {between : List Char} {parts : List (List Char)}
    (hbetween : Balanced between) (h : ∀ q ∈ parts, Balanced q) :
    Balanced (between.intercalate parts) := by
  induction parts with
  | nil => exact balanced_nil
  | cons q parts ih =>
    have hq := h q List.mem_cons_self
    have hparts := ih fun r hr => h r (List.mem_cons_of_mem _ hr)
    cases parts with
    | nil => simpa using hq
    | cons q' parts =>
      rw [List.intercalate_cons_cons]
      exact (hq.append hbetween).append hparts

/-- Parts with something clean between each two are a part again. -/
lemma isPart_intercalate {between : List Char} {parts : List (List Char)}
    (hbetween : Balanced between) (hclean : Clean sep between) (hne : parts ≠ [])
    (h : ∀ q ∈ parts, IsPart sep q) : IsPart sep (between.intercalate parts) := by
  induction parts with
  | nil => exact absurd rfl hne
  | cons q parts ih =>
    have hq := h q List.mem_cons_self
    cases parts with
    | nil => simpa using hq
    | cons q' parts =>
      have hrest := ih (List.cons_ne_nil _ _) fun r hr => h r (List.mem_cons_of_mem _ hr)
      have hfront := hq.balanced.append hbetween
      rw [List.intercalate_cons_cons]
      exact ⟨hq.isTrimmed.append hrest.isTrimmed, hfront.append hrest.balanced,
        (hq.clean.append hclean hq.balanced hbetween.head_ne).append hrest.clean hfront
          hrest.balanced.head_ne⟩

/-- What is in no part, and not between them, is not in the whole. -/
lemma not_mem_intercalate {between : List Char} {parts : List (List Char)} {c : Char}
    (hbetween : c ∉ between) (h : ∀ q ∈ parts, c ∉ q) : c ∉ between.intercalate parts := by
  induction parts with
  | nil => exact List.not_mem_nil
  | cons q parts ih =>
    have hq := h q List.mem_cons_self
    have hparts := ih fun r hr => h r (List.mem_cons_of_mem _ hr)
    cases parts with
    | nil => rwa [List.intercalate_singleton]
    | cons q' parts =>
      rw [List.intercalate_cons_cons, List.mem_append, List.mem_append]
      rintro ((hc | hc) | hc)
      · exact hq hc
      · exact hbetween hc
      · exact hparts hc

end Bracket

namespace Member

open StyleGuide.Bracket

/-! ## Names -/

/-- The names that a member can have. -/
structure IsName (name : List Char) : Prop where
  starts : ∃ c, name.head? = some c ∧ startsName c = true
  continues : ∀ c ∈ name, continuesName c = true

instance {name : List Char} : Decidable (IsName name) :=
  decidable_of_iff (name.head?.any startsName = true ∧ name.all continuesName = true) <| by
    rw [Option.any_eq_true, List.all_eq_true]
    exact ⟨fun h => ⟨h.1, h.2⟩, fun h => ⟨h.1, h.2⟩⟩

lemma isBlank_eq_false_of_continuesName {c : Char} (h : continuesName c = true) :
    isBlank c = false := by
  simp only [continuesName, Bool.or_eq_true, decide_eq_true_eq] at h
  rcases h with h | rfl
  · exact isBlank_eq_false_of_isWord h
  · rfl

lemma isBracket_eq_false_of_continuesName {c : Char} (h : continuesName c = true) :
    isBracket c = false :=
  isBracket_eq_false_of (by decide) h

lemma IsName.isTrimmed {name : List Char} (h : IsName name) : IsTrimmed name := by
  obtain ⟨c, hc, -⟩ := h.starts
  have hne : name ≠ [] := by
    rintro rfl
    cases hc
  have hblank : ∀ c ∈ name, isBlank c = false := fun c hc =>
    isBlank_eq_false_of_continuesName (h.continues c hc)
  exact ⟨⟨c, hc, hblank c (List.mem_of_head? hc)⟩,
    ⟨name.getLast hne, List.getLast?_eq_some_getLast hne, hblank _ (List.getLast_mem hne)⟩⟩

lemma IsName.balanced {name : List Char} (h : IsName name) : Balanced name :=
  balanced_of_forall fun c hc => isBracket_eq_false_of_continuesName (h.continues c hc)

/-! ## Types -/

/-- The characters that end a declaration. -/
def endsDeclaration (c : Char) : Bool := c = ';' || c = ','

/-- A property that no separator has. -/
lemma endsDeclaration_eq_false_of {f : Char → Bool} (hf : [';', ','].any f = false) {c : Char}
    (hc : f c = true) : endsDeclaration c = false := by
  cases hends : endsDeclaration c with
  | false => rfl
  | true =>
    simp only [endsDeclaration, Bool.or_eq_true, decide_eq_true_eq] at hends
    rcases hends with rfl | rfl <;> simp [hc] at hf

lemma endsDeclaration_eq_false_of_isBlank (c : Char) (h : isBlank c = true) :
    endsDeclaration c = false :=
  endsDeclaration_eq_false_of (by decide) h

/-- The texts that can stand for the type of a member: they stay on one line, and nothing in them
ends the declaration. -/
structure IsTypeText (type : List Char) : Prop extends IsPart endsDeclaration type where
  oneLine : '\n' ∉ type

/-- A text does not end with what would end its declaration. -/
lemma endsDeclaration_getLast?_eq_false {type : List Char} (hcloses : depthAfter type = 0)
    (hclean : Clean endsDeclaration type) {c : Char} (hc : type.getLast? = some c) :
    endsDeclaration c = false := by
  obtain ⟨front, rfl⟩ := List.getLast?_eq_some_iff.1 hc
  cases hends : endsDeclaration c with
  | false => rfl
  | true =>
    have hbracket : isBracket c = false := isBracket_eq_false_of (by decide) hends
    have hdepth : (start.after front).depth = 0 := by
      rwa [depthAfter_eq, after_append, after_cons, after_nil,
        next_depth_of_not_isBracket _ hbracket] at hcloses
    have hlast := (along_append.1 hclean).2.1 hdepth
    rw [hends] at hlast
    cases hlast

lemma typeText_eq {type : List Char} (htrimmed : IsTrimmed type) (hcloses : depthAfter type = 0)
    (hclean : Clean endsDeclaration type) : typeText type = type := by
  have hlast : type.getLast?.any endsDeclaration = false := by
    cases hc : type.getLast? with
    | none => rfl
    | some c => exact endsDeclaration_getLast?_eq_false hcloses hclean hc
  unfold typeText
  simp only [htrimmed.trimRight_eq]
  exact if_neg (Bool.eq_false_iff.1 hlast)

/-! ## Declarations -/

/-- The mark between the name and the type of a member. -/
def mark (isOptional : Bool) : List Char := if isOptional then "?: ".toList else ": ".toList

/-- A member as a text, without its comments. -/
def declaration (m : Member) : List Char := m.name ++ mark m.isOptional ++ m.type

/-- The members that can be read back from their texts. -/
structure IsWritable (m : Member) : Prop where
  isName : IsName m.name
  isTypeText : IsTypeText m.type

variable {m : Member}

/-- The mark without the blank at its end. -/
def colon (isOptional : Bool) : List Char := if isOptional then "?:".toList else ":".toList

lemma mark_eq (isOptional : Bool) : mark isOptional = colon isOptional ++ [' '] := by
  cases isOptional <;> rfl

lemma exists_colon_eq (isOptional : Bool) :
    ∃ c rest, colon isOptional = c :: rest ∧ (c = '?' ∨ c = ':') := by
  cases isOptional with
  | false => exact ⟨':', [], rfl, .inr rfl⟩
  | true => exact ⟨'?', [':'], rfl, .inl rfl⟩

/-- A name reaches up to the first character that cannot go on with it. -/
lemma takeWhile_dropWhile_name {tail : List Char} {c : Char} (rest : List Char)
    (htail : ∀ x ∈ tail, continuesName x = true) (hc : continuesName c = false) :
    (tail ++ c :: rest).takeWhile continuesName = tail ∧
      (tail ++ c :: rest).dropWhile continuesName = c :: rest := by
  have hc : ¬ continuesName c = true := by simp [hc]
  rw [List.takeWhile_append_of_pos htail, List.takeWhile_cons_of_neg hc, List.append_nil,
    List.dropWhile_append_of_pos htail, List.dropWhile_cons_of_neg hc]
  exact ⟨rfl, rfl⟩

lemma readPlain?_colon {name behind : List Char} (h : IsName name) (isOptional : Bool)
    (hne : trimLeft behind ≠ []) :
    readPlain? (name ++ colon isOptional ++ behind) =
      some (name, isOptional, typeText (trimLeft behind)) := by
  obtain ⟨⟨c, hc, hstarts⟩, hcontinues⟩ := h
  obtain ⟨tail, rfl⟩ := List.head?_eq_some_iff.1 hc
  have htail : ∀ x ∈ tail, continuesName x = true := fun x hx =>
    hcontinues x (List.mem_cons_of_mem _ hx)
  have hcolon : trimLeft (':' :: behind) = ':' :: behind := trimLeft_cons rfl
  cases isOptional with
  | false =>
    obtain ⟨htake, hdrop⟩ := takeWhile_dropWhile_name behind htail
      (show continuesName ':' = false by decide)
    have hrest : c :: tail ++ colon false ++ behind = c :: (tail ++ ':' :: behind) := by
      simp [colon]
    rw [hrest, readPlain?, if_pos hstarts]
    simp [htake, hdrop, hcolon, hne]
  | true =>
    obtain ⟨htake, hdrop⟩ := takeWhile_dropWhile_name (':' :: behind) htail
      (show continuesName '?' = false by decide)
    have hrest : c :: tail ++ colon true ++ behind = c :: (tail ++ '?' :: ':' :: behind) := by
      simp [colon]
    rw [hrest, readPlain?, if_pos hstarts]
    simp [htake, hdrop, hcolon, hne]

/-- A name is no modifier, since there is no blank behind it. -/
lemma behindWord?_colon {name : List Char} (h : IsName name) (isOptional : Bool)
    (behind : List Char) :
    behindWord? "readonly".toList (name ++ colon isOptional ++ behind) = none := by
  obtain ⟨c, rest, hcolon, hc⟩ := exists_colon_eq isOptional
  rw [hcolon, List.append_assoc, List.cons_append, behindWord?, if_neg]
  rintro ⟨hmodifier, hblank⟩
  obtain ⟨more, hmore⟩ := List.isPrefixOf_iff_prefix.1 hmodifier
  rw [← hmore, List.drop_left] at hblank
  cases more with
  | nil => cases hblank
  | cons b more =>
    have hb : continuesName b = false := by
      cases hb : continuesName b with
      | false => rfl
      | true =>
        have hnot := isBlank_eq_false_of_continuesName hb
        simp [hnot] at hblank
    -- Both the name and the modifier end at the first character that cannot go on with a name.
    have hcontinues : continuesName c = false := by rcases hc with rfl | rfl <;> decide
    have hreadonly : ∀ x ∈ "readonly".toList, continuesName x = true :=
      List.all_eq_true.1 (by decide)
    obtain ⟨-, hname⟩ := takeWhile_dropWhile_name (rest ++ behind) h.continues hcontinues
    obtain ⟨-, hmodifier⟩ := takeWhile_dropWhile_name more hreadonly hb
    rw [← hmore, hmodifier] at hname
    cases hname
    rcases hc with rfl | rfl <;> cases hblank

/-- What stands behind the colon, and the blanks there, is the text of a type. -/
theorem readDeclaration?_colon {name behind : List Char} (h : IsName name) (isOptional : Bool)
    (hne : trimLeft behind ≠ []) :
    readDeclaration? (name ++ colon isOptional ++ behind) =
      some (name, isOptional, typeText (trimLeft behind)) := by
  rw [readDeclaration?, behindWord?_colon h]
  exact readPlain?_colon h isOptional hne

/-- What stands behind the mark is the text of a type. -/
theorem readDeclaration?_append {name type : List Char} (h : IsName name) (isOptional : Bool)
    (htype : trimLeft type = type) (hne : type ≠ []) :
    readDeclaration? (name ++ mark isOptional ++ type) =
      some (name, isOptional, typeText type) := by
  have hblank : trimLeft (' ' :: type) = type := by
    rw [trimLeft_cons_of_isBlank rfl, htype]
  have hassoc : name ++ mark isOptional ++ type = name ++ colon isOptional ++ ' ' :: type := by
    simp [mark_eq]
  have hread := readDeclaration?_colon h isOptional (ne_of_eq_of_ne hblank hne)
  rwa [hblank, ← hassoc] at hread

/-- A declaration is read as the member that it was written from. -/
theorem readDeclaration?_declaration (h : m.IsWritable) :
    readDeclaration? m.declaration = some (m.name, m.isOptional, m.type) := by
  obtain ⟨hname, htype⟩ := h
  have htrimmed := htype.isTrimmed
  rw [declaration, readDeclaration?_append hname _ htrimmed.trimLeft_eq htrimmed.ne_nil,
    typeText_eq htrimmed htype.balanced.closes htype.clean]

/-! ## Declarations among others -/

lemma endsDeclaration_eq_false_of_continuesName {c : Char} (h : continuesName c = true) :
    endsDeclaration c = false :=
  endsDeclaration_eq_false_of (by decide) h

/-- The start of a name is neither blank nor a separator. -/
lemma not_isBlank_of_startsName {c : Char} (h : startsName c = true) :
    isBlank c = false ∧ endsDeclaration c = false :=
  ⟨isBlank_eq_false (f := startsName) (by decide) h, endsDeclaration_eq_false_of (by decide) h⟩

/-- Nothing in front of a type is met by what looks for separators or brackets. -/
lemma balanced_clean_colon {name : List Char} (h : IsName name) (isOptional : Bool) :
    Balanced (name ++ colon isOptional) ∧ Clean endsDeclaration (name ++ colon isOptional) := by
  have hcolon : Balanced (colon isOptional) ∧ (colon isOptional).any endsDeclaration = false := by
    cases isOptional <;> decide
  refine ⟨h.balanced.append hcolon.1, clean_of_forall fun c hc => ?_⟩
  rcases List.mem_append.1 hc with hc | hc
  · exact endsDeclaration_eq_false_of_continuesName (h.continues c hc)
  · exact eq_false_of_any hcolon.2 hc

lemma balanced_clean_name {name : List Char} (h : IsName name) (isOptional : Bool) :
    Balanced (name ++ mark isOptional) ∧ Clean endsDeclaration (name ++ mark isOptional) := by
  obtain ⟨hbalanced, hclean⟩ := balanced_clean_colon h isOptional
  rw [mark_eq, ← List.append_assoc]
  exact ⟨hbalanced.append (by decide), hclean.append (by decide) hbalanced (by decide)⟩

lemma IsWritable.isPart (h : m.IsWritable) : IsPart endsDeclaration m.declaration := by
  obtain ⟨hname, htype⟩ := h
  obtain ⟨hbalanced, hclean⟩ := balanced_clean_name hname m.isOptional
  exact ⟨hname.isTrimmed.append htype.isTrimmed, hbalanced.append htype.balanced,
    hclean.append htype.clean hbalanced htype.balanced.head_ne⟩

/-- A text that starts like a name. -/
def StartsLikeName (cs : List Char) : Prop := ∃ c tail, cs = c :: tail ∧ startsName c = true

lemma StartsLikeName.append {cs : List Char} (h : StartsLikeName cs) (ds : List Char) :
    StartsLikeName (cs ++ ds) := by
  obtain ⟨c, tail, rfl, hc⟩ := h
  exact ⟨c, tail ++ ds, rfl, hc⟩

lemma IsName.startsLikeName {name : List Char} (h : IsName name) : StartsLikeName name := by
  obtain ⟨c, hc, hstarts⟩ := h.starts
  obtain ⟨tail, htail⟩ := List.head?_eq_some_iff.1 hc
  exact ⟨c, tail, htail, hstarts⟩

/-- A text that starts like a name is no comment, and does not go on with the line above. -/
lemma commentText?_cons {c : Char} {rest : List Char} (h : startsName c = true) :
    commentText? (c :: rest) = none ∧ isContinuation (c :: rest) = false := by
  have hne : ∀ x, startsName x = false → c ≠ x := by
    rintro x hx rfl
    rw [h] at hx
    cases hx
  have hslash := hne '/' rfl
  have hstar := hne '*' rfl
  have hbar := hne '|' rfl
  have hamp := hne '&' rfl
  simp [commentText?, isContinuation, List.isPrefixOf, Ne.symm hslash, Ne.symm hstar, hbar, hamp]

lemma StartsLikeName.commentText?_eq {cs : List Char} (h : StartsLikeName cs) :
    commentText? cs = none := by
  obtain ⟨c, rest, rfl, hc⟩ := h
  exact (commentText?_cons hc).1

lemma StartsLikeName.isContinuation_eq {cs : List Char} (h : StartsLikeName cs) :
    isContinuation cs = false := by
  obtain ⟨c, rest, rfl, hc⟩ := h
  exact (commentText?_cons hc).2

lemma commentText?_declaration (h : IsName m.name) (more : List Char) :
    commentText? (m.declaration ++ more) = none ∧
      isContinuation (m.declaration ++ more) = false := by
  obtain ⟨c, hc, hstarts⟩ := h.starts
  obtain ⟨tail, htail⟩ := List.head?_eq_some_iff.1 hc
  rw [declaration, htail]
  exact commentText?_cons hstarts

lemma IsWritable.commentText?_eq_none (h : m.IsWritable) (more : List Char) :
    commentText? (m.declaration ++ more) = none ∧
      isContinuation (m.declaration ++ more) = false :=
  commentText?_declaration h.isName more

lemma declarationsOf_eq (line : List Char) :
    declarationsOf line = ((split endsDeclaration line).map trim).filter fun s =>
      s ≠ [] && (commentText? s).isNone := rfl

/-- Declarations on one line are told apart. -/
theorem declarationsOf_intercalate {ms : List Member} (h : ∀ m ∈ ms, m.IsWritable) (hne : ms ≠ []) :
    declarationsOf ("; ".toList.intercalate (ms.map declaration)) = ms.map declaration := by
  have hparts : ∀ s ∈ ms.map declaration, IsPart endsDeclaration s ∧ commentText? s = none := by
    intro s hs
    obtain ⟨m, hm, rfl⟩ := List.mem_map.1 hs
    have hcomment := ((h m hm).commentText?_eq_none []).1
    rw [List.append_nil] at hcomment
    exact ⟨(h m hm).isPart, hcomment⟩
  have hsplit : (split endsDeclaration ("; ".toList.intercalate (ms.map declaration))).map trim =
      ms.map declaration :=
    map_trim_splitFrom_intercalate [] [] [' '] endsDeclaration_eq_false_of_isBlank rfl rfl
      (by simp) (by simp) (List.forall_mem_singleton.2 rfl) (by simpa using hne)
      (fun s hs => (hparts s hs).1) rfl
  rw [declarationsOf_eq, hsplit, List.filter_eq_self]
  intro s hs
  obtain ⟨hpart, hcomment⟩ := hparts s hs
  simp [hpart.isTrimmed.ne_nil, hcomment]

/-! ## Members -/

/-- What a member is read from: its comments, and then its declaration. -/
def piecesOf (m : Member) : List Piece := m.comments.map .comment ++ [.declaration m.declaration]

/-- Comments go to the declaration behind them. -/
lemma ofPieces_append (front comments : List (List Char)) (ps : List Piece) :
    ofPieces front (comments.map .comment ++ ps) = ofPieces (front ++ comments) ps := by
  induction comments generalizing front with
  | nil => simp
  | cons text comments ih =>
    rw [List.map_cons, List.cons_append, ofPieces, ih, List.append_assoc, List.singleton_append]

/-- The pieces of members are read as these members. -/
theorem ofPieces_flatMap {ms : List Member} (h : ∀ m ∈ ms, m.IsWritable) :
    ofPieces [] (ms.flatMap piecesOf) = .ok ms := by
  induction ms with
  | nil => rfl
  | cons m ms ih =>
    rw [List.flatMap_cons, piecesOf, List.append_assoc, ofPieces_append, List.nil_append,
      List.singleton_append, ofPieces, readDeclaration?_declaration (h m List.mem_cons_self)]
    simp only
    rw [ih fun x hx => h x (List.mem_cons_of_mem _ hx)]
    rfl

/-- A line on which all brackets are closed again is a piece, or several, by itself. -/
lemma group_cons {line : List Char} (rest : List (List Char)) (hcomment : commentText? line = none)
    (hbalanced : Balanced line) :
    group [] (line :: rest) = (declarationsOf line).map .declaration ++ group [] rest := by
  have hglue : glue [] line = line := rfl
  have hown : ownComment? [] line = none := hcomment
  rw [group, hown, hglue]
  simp only [hbalanced.closes, Int.lt_irrefl, if_false]

/-- A line without a line break in it. -/
lemma joinedLines_of_not_mem {body : List Char} (h : '\n' ∉ body) :
    joinedLines body = if trim body = [] then [] else [trim body] := by
  have hcut : cut (· == '\n') body = [body] :=
    cut_eq_singleton fun c hc => beq_eq_false_iff_ne.2 fun heq => h (heq ▸ hc)
  unfold joinedLines
  rw [hcut]
  by_cases hbody : trim body = []
  · simp [hbody]
  · simp [hbody, addLine]

lemma not_mem_declaration (hname : IsName m.name) (hline : '\n' ∉ m.type) :
    '\n' ∉ m.declaration := by
  have hname : '\n' ∉ m.name := by
    intro hmem
    cases isBlank_eq_false_of_continuesName (hname.continues _ hmem)
  have hmark : '\n' ∉ mark m.isOptional := by cases m.isOptional <;> decide
  simp [declaration, hname, hmark, hline]

lemma IsWritable.not_mem (h : m.IsWritable) : '\n' ∉ m.declaration :=
  not_mem_declaration h.isName h.isTypeText.oneLine

/-- A body on one line has a character only where one of its declarations has it. -/
lemma not_mem_declarations {ms : List Member} {c : Char} (hc : c ∉ "; ".toList)
    (h : ∀ m ∈ ms, c ∉ m.declaration) :
    c ∉ ' ' :: ("; ".toList.intercalate (ms.map declaration) ++ [' ']) := by
  have hblank : c ≠ ' ' := by
    rintro rfl
    exact hc (by decide)
  have hjoined : c ∉ "; ".toList.intercalate (ms.map declaration) := by
    apply not_mem_intercalate hc
    intro s hs
    obtain ⟨m, hm, rfl⟩ := List.mem_map.1 hs
    exact h m hm
  generalize "; ".toList.intercalate (ms.map declaration) = line at hjoined
  simp [hblank, hjoined]

/-- Declarations with separators between them, where nothing is looked for. -/
lemma isPart_declarations {ms : List Member} (h : ∀ m ∈ ms, m.IsWritable) (hne : ms ≠ []) :
    IsPart (fun _ => false) ("; ".toList.intercalate (ms.map declaration)) := by
  apply isPart_intercalate (by decide) (clean_of_forall fun _ _ => rfl) (by simpa using hne)
  intro s hs
  obtain ⟨m, hm, rfl⟩ := List.mem_map.1 hs
  exact ⟨(h m hm).isPart.isTrimmed, (h m hm).isPart.balanced, clean_of_forall fun _ _ => rfl⟩

/-- The pieces of a body on one line are its declarations. -/
lemma pieces_intercalate {ms : List Member} (h : ∀ m ∈ ms, m.IsWritable) :
    pieces (' ' :: ("; ".toList.intercalate (ms.map declaration) ++ [' '])) =
      (ms.map declaration).map .declaration := by
  cases ms with
  | nil => rfl
  | cons m ms =>
    have hne : m :: ms ≠ [] := List.cons_ne_nil m ms
    have hdeclarations := declarationsOf_intercalate h hne
    obtain ⟨htrimmed, hbalanced, -⟩ := isPart_declarations h hne
    have hbreak := not_mem_declarations (by decide) fun m' hm' => (h m' hm').not_mem
    obtain ⟨more, hmore⟩ := exists_intercalate_cons "; ".toList m.declaration (ms.map declaration)
    have hcomment := ((h m List.mem_cons_self).commentText?_eq_none more).1
    rw [← hmore, ← List.map_cons] at hcomment
    generalize "; ".toList.intercalate ((m :: ms).map declaration) = line at *
    have hblank : ∀ b ∈ [' '], isBlank b = true := List.forall_mem_singleton.2 rfl
    have htrim : trim (' ' :: (line ++ [' '])) = line := htrimmed.trim_around hblank hblank
    rw [pieces, joinedLines_of_not_mem hbreak, htrim, if_neg htrimmed.ne_nil,
      group_cons [] hcomment hbalanced, hdeclarations]
    simp [group, trim, trimLeft, trimRight]

/-- Without comments, members are read from their declarations alone. -/
lemma map_declaration_eq_flatMap_piecesOf {ms : List Member} (h : ∀ m ∈ ms, m.comments = []) :
    (ms.map fun m => Piece.declaration m.declaration) = ms.flatMap piecesOf := by
  rw [List.map_eq_flatMap]
  refine List.flatMap_congr fun m hm => ?_
  rw [piecesOf, h m hm]
  rfl

/-- Members without comments that are written on one line are read back. -/
theorem readAll_intercalate {ms : List Member} (h : ∀ m ∈ ms, m.IsWritable)
    (hcomments : ∀ m ∈ ms, m.comments = []) :
    readAll (' ' :: ("; ".toList.intercalate (ms.map declaration) ++ [' '])) = .ok ms := by
  have hpieces := map_declaration_eq_flatMap_piecesOf hcomments
  rw [readAll, pieces_intercalate h, List.map_map, ← ofPieces_flatMap h, ← hpieces]
  rfl

end Member

end StyleGuide
