import StyleGuide.Proofs.Props.Enclosed
import StyleGuide.Proofs.Props.Member

/-!
# Types that are written down

A printer for types, and the types for which reading inverts it. Whatever a type holds stands
between brackets, so its separators are not met where those of the type itself are looked for.

## Main definitions

* `PropType.print`: a type as a text.
* `PropType.Printable`: the types that are read back from their texts.

## Main results

* `PropType.read_printAlternatives`: what the reader does with several alternatives.
* `PropType.read_print`: reading a printed type gives the type.
-/

namespace StyleGuide.PropType

open StyleGuide.Bracket Member

/-! ## Printing -/

/-- Texts with ` | ` between each two. -/
def printAlternatives (parts : List (List Char)) : List Char := " | ".toList.intercalate parts

mutual

/-- A type as a text. -/
def print : PropType → List Char
  | primitive name => name.toList
  | arrayOf item => '(' :: (print item ++ ")[]".toList)
  | instanceOf className => className.toList
  | enumOf values => printAlternatives (values.map fun v => v.value.toList)
  | enumText raw => raw.toList
  | unionOf members => printAlternatives (printMembers members)
  | unionText raw => raw.toList
  | shape fields => "\x7b ".toList ++ "; ".toList.intercalate (printFields fields) ++ " \x7d".toList

/-- The members of a union, each between parentheses. -/
def printMembers : List PropType → List (List Char)
  | [] => []
  | t :: rest => ('(' :: (print t ++ [')'])) :: printMembers rest

/-- A type that may be absent. -/
def printType? : Option PropType → List Char
  | none => []
  | some t => print t

/-- The part of a field behind its name. -/
def printDescriptor : Descriptor PropType → List Char
  | ⟨type, _, required, _, _⟩ => mark (!required) ++ printType? type

/-- The fields of a shape. -/
def printFields : List (String × Descriptor PropType) → List (List Char)
  | [] => []
  | (name, d) :: rest => (name.toList ++ printDescriptor d) :: printFields rest

end

/-! ## The types that can be printed -/

/-- The characters inside the literals of an enumeration. -/
def inLiteral (c : Char) : Bool := isWord c || c = '-'

/-- A literal between quotes of one kind. -/
structure IsQuotedLiteral (v : EnumValue) : Prop where
  computed : v.computed = false
  quoted : ∃ q ∈ ['\'', '"', '\x60'], ∃ content,
    v.value.toList = q :: (content ++ [q]) ∧ ∀ c ∈ content, inLiteral c = true

/-- A field of a shape, of which nothing is known but whether it is required and its type. -/
def field (name : String) (required : Bool) (t : PropType) : String × PropDescriptor :=
  (name, ⟨some t, none, required, none, ""⟩)

/-- The types that are read back from their texts. -/
inductive Printable : PropType → Prop
  /-- A name that the reader does not change. -/
  | primitive {name : String} (isName : IsName name.toList)
      (notRenamed : name ∉ ["boolean", "ReactNode", "ReactElement", "Function"]) :
      Printable (primitive name)
  | arrayOf {item : PropType} (h : Printable item) : Printable (arrayOf item)
  | enumOf {values : List EnumValue} (several : 2 ≤ values.length)
      (literals : ∀ v ∈ values, IsQuotedLiteral v) : Printable (enumOf values)
  | unionOf {members : List PropType} (several : 2 ≤ members.length)
      (h : ∀ t ∈ members, Printable t) : Printable (unionOf members)
  | shape {fields : List (String × Bool × PropType)} (names : ∀ f ∈ fields, IsName f.1.toList)
      (h : ∀ f ∈ fields, Printable f.2.2) :
      Printable (shape (fields.map fun f => field f.1 f.2.1 f.2.2))

/-! ## What the reader does -/

lemma isBar_eq_false_of_isBlank (b : Char) (h : isBlank b = true) : (b == '|') = false := by
  apply beq_eq_false_iff_ne.2
  rintro rfl
  cases h

lemma alternatives_intercalate {parts : List (List Char)} (hne : parts ≠ [])
    (h : ∀ q ∈ parts, IsPart (· == '|') q) : alternatives (printAlternatives parts) = parts := by
  have hsplit : (split (· == '|') (printAlternatives parts)).map trim = parts :=
    map_trim_splitFrom_intercalate [] [' '] [' '] isBar_eq_false_of_isBlank rfl rfl (by simp)
      (List.forall_mem_singleton.2 rfl) (List.forall_mem_singleton.2 rfl) hne h rfl
  rw [alternatives, hsplit, List.filter_eq_self]
  intro q hq
  simpa using (h q hq).isTrimmed.ne_nil

/-- Several alternatives are an enumeration when all are literals, and a union otherwise. -/
theorem read_printAlternatives {parts : List (List Char)} (hseveral : 2 ≤ parts.length)
    (h : ∀ q ∈ parts, IsPart (· == '|') q) (harrow : ∀ q ∈ parts, '>' ∉ q)
    (hfunction : printAlternatives parts ≠ "Function".toList) :
    read (printAlternatives parts) =
      if parts.all isLiteral then enumOf (parts.map fun p => ⟨String.ofList p, false⟩)
      else unionOf (parts.map read) := by
  have hne : parts ≠ [] := by
    rintro rfl
    cases hseveral
  have halternatives := alternatives_intercalate hne h
  have hclean : ∀ cs, Clean (fun _ => false) cs := fun cs => clean_of_forall fun _ _ => rfl
  obtain ⟨htrimmed, -, -⟩ : IsPart (fun _ => false) (printAlternatives parts) :=
    isPart_intercalate (by decide) (hclean _) hne fun q hq =>
      ⟨(h q hq).isTrimmed, (h q hq).balanced, hclean q⟩
  have hnone : '>' ∉ printAlternatives parts := not_mem_intercalate (by decide) harrow
  have hangle : Clean (· == '>') (printAlternatives parts) :=
    clean_of_forall fun c hc => beq_false_of_ne (ne_of_mem_of_not_mem hc hnone)
  generalize printAlternatives parts = cs at *
  have hcond : ¬ (hasArrow cs = true ∨ cs = "Function".toList) :=
    not_or.2 ⟨by simp [hasArrow_eq_false hangle], hfunction⟩
  have hattach : ∀ ps : List (List Char), (ps.attach.map fun p => read p.1) = ps.map read :=
    fun ps => by simp
  rw [read]
  simp only [htrimmed.trim_eq, hattach]
  rw [if_neg hcond, dif_pos (by rwa [halternatives]), halternatives]

/-- The characters that no name has, and that would give a type another form. -/
lemma not_mem_of_isName {name : List Char} (h : IsName name) :
    ∀ c ∈ ['|', '>', '.', ']', '(', '\x7b'], c ∉ name := by
  have hfalse : ['|', '>', '.', ']', '(', '\x7b'].any continuesName = false := by decide
  intro c hc hmem
  have hcontinues := h.continues c hmem
  rw [eq_false_of_any hfalse hc] at hcontinues
  cases hcontinues

lemma ofName_eq {name : String} (hdot : '.' ∉ name.toList)
    (hrenamed : name ∉ ["boolean", "ReactNode", "ReactElement", "Function"]) :
    ofName name = primitive name := by
  have hdotted : ∀ s : String, '.' ∈ s.toList → name ≠ s := by
    rintro s hs rfl
    exact hdot hs
  simp only [List.mem_cons, List.not_mem_nil, or_false, not_or] at hrenamed
  obtain ⟨hboolean, hnode, helement, -⟩ := hrenamed
  simp only [ofName, hboolean, hnode, helement, if_false, false_or]
  rw [if_neg]
  rintro (heq | heq | heq)
  all_goals exact hdotted _ (by decide) heq

/-- A name is read as that name. -/
theorem read_name {name : String} (h : IsName name.toList)
    (hrenamed : name ∉ ["boolean", "ReactNode", "ReactElement", "Function"]) :
    read name.toList = primitive name := by
  have hnot := not_mem_of_isName h
  have hclean : Clean divides name.toList := by
    refine clean_of_forall fun c hc => ?_
    have hbar : c ≠ '|' := ne_of_mem_of_not_mem hc (hnot _ (by decide))
    have hangle : c ≠ '>' := ne_of_mem_of_not_mem hc (hnot _ (by decide))
    simp [divides, hbar, hangle]
  have hsquare : beforeBrackets? name.toList = none :=
    beforeBrackets?_eq_none fun hlast => hnot _ (by decide) (List.mem_of_getLast? hlast)
  have hfunction : name.toList ≠ "Function".toList := by
    intro heq
    rw [String.toList_inj] at heq
    simp [heq] at hrenamed
  have hsingle := isSingle_of_clean h.isTrimmed hclean hfunction
  rw [hsingle.read_eq, enclosed?_eq_none (hnot '(' (by decide)), hsquare,
    insideArray?_eq_none (hnot _ (by decide)), enclosed?_eq_none (hnot '\x7b' (by decide))]
  simp only [String.ofList_toList]
  exact ofName_eq (hnot _ (by decide)) hrenamed

/-! ## Plain texts -/

/-- The characters that the reader looks for between others. -/
def specials : List Char :=
  ['(', ')', '[', ']', '\x7b', '\x7d', '<', '>', ';', ',', '|', '\n']

lemma not_mem_specials {f : Char → Bool} {c : Char} (hf : specials.any f = false)
    (hc : f c = true) : c ∉ specials := by
  intro hmem
  rw [eq_false_of_any hf hmem] at hc
  cases hc

/-- What is known of the text of a type. -/
structure IsPrinted (cs : List Char) : Prop extends IsTypeText cs where
  noArrow : '>' ∉ cs

/-- What is known of the text of one of several alternatives. -/
structure IsAlternative (cs : List Char) : Prop extends IsPrinted cs where
  noBar : Clean (· == '|') cs

lemma IsAlternative.isPart {cs : List Char} (h : IsAlternative cs) : IsPart (· == '|') cs :=
  ⟨h.isTrimmed, h.balanced, h.noBar⟩

/-- Where there is no special character, there is nothing to be found. -/
lemma isAlternative_of_plain {cs : List Char} (htrimmed : IsTrimmed cs)
    (h : ∀ c ∈ cs, c ∉ specials) : IsAlternative cs := by
  have hnot : ∀ b ∈ specials, b ∉ cs := fun b hb hmem => h b hmem hb
  have hbracket : ∀ c ∈ cs, isBracket c = false := by
    intro c hc
    have hplain : (!specials.contains c) = true := by simpa using h c hc
    exact isBracket_eq_false_of (f := fun c => !specials.contains c) (by decide) hplain
  have hends : ∀ c ∈ cs, endsDeclaration c = false := by
    intro c hc
    have hplain : (!specials.contains c) = true := by simpa using h c hc
    exact endsDeclaration_eq_false_of (f := fun c => !specials.contains c) (by decide) hplain
  have hbar : ∀ c ∈ cs, (c == '|') = false := by
    intro c hc
    apply beq_eq_false_iff_ne.2
    rintro rfl
    exact hnot _ (by decide) hc
  exact ⟨⟨⟨⟨htrimmed, balanced_of_forall hbracket, clean_of_forall hends⟩, hnot _ (by decide)⟩,
    hnot _ (by decide)⟩, clean_of_forall hbar⟩

lemma isAlternative_name {name : List Char} (h : IsName name) : IsAlternative name :=
  isAlternative_of_plain h.isTrimmed fun c hc => not_mem_specials (by decide) (h.continues c hc)

/-- A literal is found to be one. -/
lemma IsQuotedLiteral.spec {v : EnumValue} (h : IsQuotedLiteral v) :
    IsAlternative v.value.toList ∧ isLiteral v.value.toList = true ∧
      ∃ q rest, v.value.toList = q :: rest ∧ q ≠ 'F' := by
  obtain ⟨q, hq, content, hvalue, hcontent⟩ := h.quoted
  obtain ⟨hblank, hspecial, hF, hisQuote⟩ : isBlank q = false ∧ q ∉ specials ∧ q ≠ 'F' ∧
      (q = '\'' || q = '"' || q = '\x60') = true := by
    simp only [List.mem_cons, List.not_mem_nil, or_false] at hq
    rcases hq with rfl | rfl | rfl <;> decide
  have htrimmed : IsTrimmed v.value.toList := hvalue ▸ .of_ends hblank hblank
  refine ⟨isAlternative_of_plain htrimmed fun c hc => ?_, ?_, q, content ++ [q], hvalue, hF⟩
  · rw [hvalue, List.mem_cons, List.mem_append, List.mem_singleton] at hc
    rcases hc with rfl | hc | rfl
    · exact hspecial
    · exact not_mem_specials (f := inLiteral) (by decide) (hcontent c hc)
    · exact hspecial
  · rw [isLiteral, htrimmed.trim_eq, hvalue]
    simp only [isQuoted, hisQuote, List.getLast?_concat, beq_self_eq_true, Bool.and_self,
      Bool.true_or]

/-! ## Printed types -/

/-- Brackets around a printed text. -/
lemma isAlternative_wrap {inner : List Char} {opening closing : Char} (h : Balanced inner)
    (hline : '\n' ∉ inner) (harrow : '>' ∉ inner) (hopen : opening = '(' ∨ opening = '\x7b')
    (hclose : isCloser closing = true) : IsAlternative (opening :: (inner ++ [closing])) := by
  obtain ⟨hisOpening, hblank, hends, hbar, hangle, hbreak⟩ : isOpening opening = true ∧
      isBlank opening = false ∧ endsDeclaration opening = false ∧ (opening == '|') = false ∧
      opening ≠ '>' ∧ opening ≠ '\n' := by
    rcases hopen with rfl | rfl <;> decide
  have hclosing : isBlank closing = false ∧ closing ≠ '>' ∧ closing ≠ '\n' := by
    simp only [isCloser, Bool.or_eq_true, decide_eq_true_eq] at hclose
    rcases hclose with (rfl | rfl) | rfl <;> decide
  have htrimmed : IsTrimmed (opening :: (inner ++ [closing])) := .of_ends hblank hclosing.1
  refine ⟨⟨⟨⟨htrimmed, h.wrap hisOpening hclose, h.clean_wrap hisOpening hends⟩, ?_⟩, ?_⟩,
    h.clean_wrap hisOpening hbar⟩
  · simp [hline, hbreak.symm, hclosing.2.2.symm]
  · simp [harrow, hangle.symm, hclosing.2.1.symm]

lemma isPrinted_alternatives {parts : List (List Char)} (hne : parts ≠ [])
    (h : ∀ q ∈ parts, IsPrinted q) : IsPrinted (printAlternatives parts) := by
  have hpart : IsPart endsDeclaration (printAlternatives parts) :=
    isPart_intercalate (by decide) (by decide) hne fun q hq => (h q hq).toIsPart
  refine ⟨⟨hpart, ?_⟩, ?_⟩
  · exact not_mem_intercalate (by decide) fun q hq => (h q hq).oneLine
  · exact not_mem_intercalate (by decide) fun q hq => (h q hq).noArrow

/-- A printed array. -/
lemma isPrinted_brackets {inner : List Char} (h : IsPrinted inner) :
    IsPrinted ('(' :: (inner ++ ")[]".toList)) := by
  obtain ⟨⟨⟨hpart, hline⟩, harrow⟩, -⟩ :=
    isAlternative_wrap h.balanced h.oneLine h.noArrow (.inl rfl) (show isCloser ')' = true from rfl)
  have hsquare : Balanced ['[', ']'] := balanced_nil.wrap rfl rfl
  have hclean : Clean endsDeclaration ['[', ']'] := by decide
  have hends : IsTrimmed ('(' :: (inner ++ [')', '['] ++ [']'])) := .of_ends rfl rfl
  have hsplit : '(' :: (inner ++ ")[]".toList) = '(' :: (inner ++ [')']) ++ ['[', ']'] := by simp
  refine ⟨⟨⟨by simpa using hends, ?_, ?_⟩, ?_⟩, ?_⟩
  · exact hsplit ▸ hpart.balanced.append hsquare
  · exact hsplit ▸ hpart.clean.append hclean hpart.balanced hsquare.head_ne
  · simp [h.oneLine]
  · simp [h.noArrow]

/-- A member of a union is no literal. -/
lemma isLiteral_parentheses (inner : List Char) : isLiteral ('(' :: (inner ++ [')'])) = false := by
  have htrim : trim ('(' :: (inner ++ [')'])) = '(' :: (inner ++ [')']) :=
    IsTrimmed.trim_eq (.of_ends rfl rfl)
  have hword : ∀ cs (s : String), s.toList.head? ≠ some '(' →
      (String.ofList ('(' :: cs) == s) = false := by
    intro cs s hs
    apply beq_eq_false_iff_ne.2
    rintro rfl
    simp at hs
  have hnumber : isNumber ('(' :: (inner ++ [')'])) = false := by
    have hsign : dropSign ('(' :: (inner ++ [')'])) = '(' :: (inner ++ [')']) := rfl
    have hlower : Char.toLower '(' = '(' := rfl
    have hdigit : Char.isDigit '(' = false := rfl
    simp only [isNumber, hsign, List.map_cons, hlower]
    rw [hword _ _ (by decide), hword _ _ (by decide), hword _ _ (by decide)]
    simp [hdigit]
  rw [isLiteral, htrim, hnumber]
  simp [isQuoted]

/-- Several alternatives, none of which starts like the name of a function. -/
lemma spec_printAlternatives {parts : List (List Char)} (hseveral : 2 ≤ parts.length)
    (h : ∀ q ∈ parts, IsAlternative q ∧ ∃ c rest, q = c :: rest ∧ c ≠ 'F') :
    IsPrinted (printAlternatives parts) ∧
      read (printAlternatives parts) =
        if parts.all isLiteral then enumOf (parts.map fun p => ⟨String.ofList p, false⟩)
        else unionOf (parts.map read) := by
  have hne : parts ≠ [] := by
    rintro rfl
    cases hseveral
  have hfunction : printAlternatives parts ≠ "Function".toList := by
    obtain ⟨q, rest, rfl⟩ := List.exists_cons_of_ne_nil hne
    obtain ⟨-, c, tail, rfl, hc⟩ := h q List.mem_cons_self
    obtain ⟨more, hmore⟩ := exists_intercalate_cons " | ".toList (c :: tail) rest
    intro heq
    rw [printAlternatives, hmore] at heq
    exact hc (List.cons.inj heq).1
  exact ⟨isPrinted_alternatives hne fun q hq => (h q hq).1.toIsPrinted,
    read_printAlternatives hseveral (fun q hq => (h q hq).1.isPart)
      (fun q hq => (h q hq).1.noArrow) hfunction⟩

lemma printMembers_eq (members : List PropType) :
    printMembers members = members.map fun t => '(' :: (print t ++ [')']) := by
  induction members with
  | nil => rfl
  | cons t members ih => rw [printMembers, ih, List.map_cons]

/-- The members that the fields of a shape are read as. -/
def memberOf (f : String × Bool × PropType) : Member := ⟨f.1.toList, !f.2.1, print f.2.2, []⟩

lemma printFields_eq (fields : List (String × Bool × PropType)) :
    printFields (fields.map fun f => field f.1 f.2.1 f.2.2) =
      (fields.map memberOf).map declaration := by
  induction fields with
  | nil => rfl
  | cons f fields ih =>
    rw [List.map_cons, List.map_cons, List.map_cons, ← ih, field, printFields, printDescriptor,
      printType?, declaration, memberOf, List.append_assoc]

/-! ## Each kind of type -/

lemma spec_enumOf {values : List EnumValue} (several : 2 ≤ values.length)
    (literals : ∀ v ∈ values, IsQuotedLiteral v) :
    IsPrinted (print (enumOf values)) ∧ read (print (enumOf values)) = enumOf values := by
  have hspec : ∀ q ∈ values.map fun v => v.value.toList,
      IsAlternative q ∧ isLiteral q = true ∧ ∃ c rest, q = c :: rest ∧ c ≠ 'F' := by
    intro q hq
    obtain ⟨v, hv, rfl⟩ := List.mem_map.1 hq
    exact (literals v hv).spec
  have hvalues : (values.map fun v => v.value.toList).map
      (fun p => (⟨String.ofList p, false⟩ : EnumValue)) = values := by
    rw [List.map_map]
    refine (List.map_congr_left fun v hv => ?_).trans (List.map_id values)
    have hcomputed := (literals v hv).computed
    simp [← hcomputed]
  obtain ⟨hprinted, hread⟩ := spec_printAlternatives (by simpa using several)
    fun q hq => ⟨(hspec q hq).1, (hspec q hq).2.2⟩
  rw [print, hread, if_pos (List.all_eq_true.2 fun q hq => (hspec q hq).2.1), hvalues]
  exact ⟨hprinted, rfl⟩

lemma spec_unionOf {members : List PropType} (several : 2 ≤ members.length)
    (h : ∀ t ∈ members, IsPrinted (print t) ∧ read (print t) = t) :
    IsPrinted (print (unionOf members)) ∧ read (print (unionOf members)) = unionOf members := by
  have hparts : ∀ q ∈ members.map fun t => '(' :: (print t ++ [')']),
      IsAlternative q ∧ ∃ c rest, q = c :: rest ∧ c ≠ 'F' := by
    intro q hq
    obtain ⟨t, ht, rfl⟩ := List.mem_map.1 hq
    obtain ⟨hprinted, -⟩ := h t ht
    exact ⟨isAlternative_wrap hprinted.balanced hprinted.oneLine hprinted.noArrow (.inl rfl) rfl,
      '(', _, rfl, by decide⟩
  have hnotAll : ¬ (members.map fun t => '(' :: (print t ++ [')'])).all isLiteral = true := by
    obtain ⟨t, rest, rfl⟩ := List.exists_cons_of_length_pos (Nat.lt_of_lt_of_le Nat.two_pos several)
    simp [isLiteral_parentheses]
  have hmembers : (members.map fun t => '(' :: (print t ++ [')'])).map read = members := by
    rw [List.map_map]
    refine (List.map_congr_left fun t ht => ?_).trans (List.map_id members)
    obtain ⟨hprinted, hread⟩ := h t ht
    exact (read_parentheses hprinted.balanced).trans hread
  obtain ⟨hprinted, hread⟩ := spec_printAlternatives (by simpa using several) hparts
  rw [print, printMembers_eq, hread, if_neg hnotAll, hmembers]
  exact ⟨hprinted, rfl⟩

/-- The text between the braces of a shape. -/
lemma balanced_declarations {ms : List Member} (h : ∀ m ∈ ms, m.IsWritable ∧ '>' ∉ m.declaration) :
    let inner := ' ' :: ("; ".toList.intercalate (ms.map declaration) ++ [' '])
    Balanced inner ∧ '\n' ∉ inner ∧ '>' ∉ inner := by
  have hbalanced : ∀ s ∈ ms.map declaration, Balanced s := by
    intro s hs
    obtain ⟨m, hm, rfl⟩ := List.mem_map.1 hs
    exact (h m hm).1.isPart.balanced
  have hblank : Balanced [' '] := by decide
  have hbetween : Balanced "; ".toList := by decide
  have hjoined := balanced_intercalate hbetween hbalanced
  refine ⟨hblank.append (hjoined.append hblank), ?_, ?_⟩
  · exact not_mem_declarations (by decide) fun m hm => (h m hm).1.not_mem
  · exact not_mem_declarations (by decide) fun m hm => (h m hm).2

lemma spec_shape {fields : List (String × Bool × PropType)}
    (names : ∀ f ∈ fields, IsName f.1.toList)
    (h : ∀ f ∈ fields, IsPrinted (print f.2.2) ∧ read (print f.2.2) = f.2.2) :
    let t := shape (fields.map fun f => field f.1 f.2.1 f.2.2)
    IsPrinted (print t) ∧ read (print t) = t := by
  intro t
  have hwritable : ∀ m ∈ fields.map memberOf, m.IsWritable ∧ '>' ∉ m.declaration := by
    intro m hm
    obtain ⟨f, hf, rfl⟩ := List.mem_map.1 hm
    obtain ⟨hprinted, -⟩ := h f hf
    have hname := (isAlternative_name (names f hf)).noArrow
    have hmark : '>' ∉ mark (!f.2.1) := by cases f.2.1 <;> decide
    refine ⟨⟨names f hf, hprinted.toIsTypeText⟩, ?_⟩
    simp [declaration, memberOf, hname, hmark, hprinted.noArrow]
  have hcomments : ∀ m ∈ fields.map memberOf, m.comments = [] := by
    intro m hm
    obtain ⟨f, -, rfl⟩ := List.mem_map.1 hm
    rfl
  have hprint : print t = '\x7b' :: (' ' :: ("; ".toList.intercalate
      ((fields.map memberOf).map declaration) ++ [' ']) ++ ['\x7d']) := by
    rw [print, printFields_eq]
    simp
  have hfields : (fields.map memberOf).map (fun m => ofMember m (read m.type)) =
      fields.map fun f => field f.1 f.2.1 f.2.2 := by
    rw [List.map_map]
    apply List.map_congr_left
    intro f hf
    simp [memberOf, ofMember, field, (h f hf).2, joinWith]
  have hread := readAll_intercalate (fun m hm => (hwritable m hm).1) hcomments
  obtain ⟨hbalanced, hline, harrow⟩ := balanced_declarations hwritable
  rw [hprint, read_braces hbalanced hread, hfields]
  exact ⟨(isAlternative_wrap hbalanced hline harrow (.inr rfl) rfl).toIsPrinted, rfl⟩

/-- The text of a type is as it should be, and is read as the type. The two are shown together,
since what is inside of a type is only read where its text is. -/
theorem Printable.spec {t : PropType} (h : Printable t) :
    IsPrinted (print t) ∧ read (print t) = t := by
  induction h with
  | primitive isName notRenamed =>
    rw [print]
    exact ⟨(isAlternative_name isName).toIsPrinted, read_name isName notRenamed⟩
  | arrayOf h ih =>
    obtain ⟨hprinted, hread⟩ := ih
    rw [print, read_brackets hprinted.balanced, hread]
    exact ⟨isPrinted_brackets hprinted, rfl⟩
  | enumOf several literals => exact spec_enumOf several literals
  | unionOf several h ih => exact spec_unionOf several ih
  | shape names h ih => exact spec_shape names ih

/-- Reading a printed type gives the type. -/
theorem read_print {t : PropType} (h : Printable t) : read (print t) = t := h.spec.2

/-- A string, or one of two words. -/
def sampleUnion : PropType :=
  unionOf [primitive "string", enumOf [⟨"'a'", false⟩, ⟨"'b-1'", false⟩]]

/-- A shape with a required list of alternatives and an optional shape without fields. -/
def sampleShape : PropType :=
  shape (List.map (fun f => field f.1 f.2.1 f.2.2)
    [("items", true, arrayOf sampleUnion), ("rest", false, shape [])])

/-- The text is `{ items: ((string) | ('a' | 'b-1'))[]; rest?: {  } }`. -/
theorem read_print_sampleShape : read (print sampleShape) = sampleShape := by
  have hstring : Printable (primitive "string") := .primitive (by decide) (by decide)
  have hquoted : ∀ v ∈ [(⟨"'a'", false⟩ : EnumValue), ⟨"'b-1'", false⟩], IsQuotedLiteral v :=
    List.forall_mem_cons.2 ⟨⟨rfl, '\'', by decide, ['a'], rfl, List.all_eq_true.1 rfl⟩,
      List.forall_mem_singleton.2
        ⟨rfl, '\'', by decide, ['b', '-', '1'], rfl, List.all_eq_true.1 rfl⟩⟩
  have hunion : Printable sampleUnion :=
    .unionOf (by decide) (List.forall_mem_cons.2
      ⟨hstring, List.forall_mem_singleton.2 (.enumOf (by decide) hquoted)⟩)
  have hempty : Printable (shape []) := @Printable.shape [] (by simp) (by simp)
  refine read_print (.shape ?_ ?_)
  · exact List.forall_mem_cons.2 ⟨by decide, List.forall_mem_singleton.2 (by decide)⟩
  · exact List.forall_mem_cons.2 ⟨.arrayOf hunion, List.forall_mem_singleton.2 hempty⟩

end StyleGuide.PropType
