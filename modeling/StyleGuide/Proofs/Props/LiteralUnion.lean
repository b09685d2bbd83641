import StyleGuide.Proofs.Props.Parts
import StyleGuide.Proofs.Props.TypeReader

/-!
# Unions of literals

What a union of literals between single quotes is read as. The reader does not know quotes, so it
finds brackets, bars and arrows in the literals as anywhere else: the union is the enumeration of
its literals just when these look like other alternatives from the outside.

## Main definitions

* `PropType.quoted`, `PropType.printLiterals`: literals, and unions of them, as texts.
* `PropType.AreToldApart`: the literals of a union are found.

## Main results

* `PropType.alternatives_printLiterals_iff`: when the alternatives of a union are its literals.
* `PropType.read_printLiterals_iff`: when a union is read as the enumeration of its literals.
-/

namespace StyleGuide.PropType

open StyleGuide.Bracket Member

/-! ## Literals -/

/-- A literal between single quotes, as a text. -/
def quoted (content : List Char) : List Char := '\'' :: (content ++ ['\''])

/-- The value that a literal stands for. -/
def literal (content : List Char) : EnumValue := ⟨String.ofList (quoted content), false⟩

/-- The union of literals with these contents, as a text. -/
def printLiterals (contents : List (List Char)) : List Char :=
  printAlternatives (contents.map quoted)

variable {x y : List Char} {xs contents : List (List Char)}

lemma isTrimmed_quoted (x : List Char) : IsTrimmed (quoted x) := .of_ends rfl rfl

lemma isLiteral_quoted (x : List Char) : isLiteral (quoted x) = true := by
  have hquoted : isQuoted (quoted x) = true := by simp [isQuoted, quoted]
  rw [isLiteral, (isTrimmed_quoted x).trim_eq, hquoted]
  rfl

lemma printLiterals_singleton (x : List Char) : printLiterals [x] = quoted x := by
  simp [printLiterals, printAlternatives]

lemma printLiterals_cons_cons (x y : List Char) (xs : List (List Char)) :
    printLiterals (x :: y :: xs) = quoted x ++ ' ' :: '|' :: ' ' :: printLiterals (y :: xs) := by
  simp [printLiterals, printAlternatives, List.intercalate_cons_cons]

/-- A union starts and ends with a quote. -/
lemma exists_printLiterals_eq (hne : contents ≠ []) :
    ∃ inner, printLiterals contents = quoted inner := by
  induction contents with
  | nil => exact absurd rfl hne
  | cons x xs ih =>
    cases xs with
    | nil => exact ⟨x, printLiterals_singleton x⟩
    | cons y xs =>
      obtain ⟨inner, hinner⟩ := ih (List.cons_ne_nil y xs)
      refine ⟨x ++ '\'' :: ' ' :: '|' :: ' ' :: '\'' :: inner, ?_⟩
      rw [printLiterals_cons_cons, hinner]
      simp [quoted]

/-- Literals are told apart by their texts. -/
lemma map_literal_eq_iff (parts : List (List Char)) :
    (contents.map literal = parts.map fun p => ⟨String.ofList p, false⟩) ↔
      parts = contents.map quoted := by
  have hinjective : Function.Injective
      fun p : List Char => (⟨String.ofList p, false⟩ : EnumValue) := by
    intro p q heq
    exact String.ofList_inj.1 (EnumValue.mk.inj heq).1
  have hmap : contents.map literal =
      (contents.map quoted).map fun p => (⟨String.ofList p, false⟩ : EnumValue) := by
    rw [List.map_map]
    rfl
  rw [hmap, (List.map_injective_iff.2 hinjective).eq_iff, eq_comm]

/-! ## Alternatives -/

lemma head?_alternatives {cs first : List Char} {pieces : List (List Char)}
    (hsplit : split (· == '|') cs = first :: pieces) (hfirst : trim first ≠ []) :
    (alternatives cs).head? = some (trim first) := by
  rw [alternatives, hsplit, List.map_cons, List.filter_cons_of_pos (by simpa using hfirst)]
  rfl

/-- A literal is cut at a bar in it. -/
lemma head?_alternatives_of_not_clean (h : ¬ Clean (· == '|') (quoted x)) (ys : List Char) :
    (alternatives (quoted x ++ ys)).head? ≠ some (quoted x) := by
  obtain ⟨front, s, back, hquoted, hs, hsplit⟩ := exists_splitFrom_eq_cons h
  -- What is in front of the bar starts with the quote, and is shorter than the literal.
  cases front with
  | nil =>
    cases (List.cons.inj hquoted).1
    cases hs
  | cons q front =>
    cases (List.cons.inj hquoted).1
    have htrim : trim ('\'' :: front) ≠ [] := by
      rw [trim_cons rfl]
      exact List.cons_ne_nil _ _
    rw [head?_alternatives (hsplit ys) htrim]
    intro heq
    have hlength := congrArg List.length (Option.some.inj heq)
    have hle := trim_length ('\'' :: front)
    rw [hlength, hquoted] at hle
    simp only [List.cons_append, List.length_cons, List.length_append] at hle
    omega

/-- A bar behind a literal ends nothing where a bracket is open. -/
lemma head?_alternatives_of_depth_ne_zero (h : Clean (· == '|') (quoted x))
    (hdepth : depthAfter (quoted x) ≠ 0) (ys : List Char) :
    (alternatives (quoted x ++ ' ' :: '|' :: ys)).head? ≠ some (quoted x) := by
  have hbar : Along (fun d c => d = 0 → (c == '|') = false) start (quoted x ++ [' ', '|']) := by
    refine along_append.2 ⟨h, fun _ => rfl, fun hzero => ?_, trivial⟩
    rw [next_depth_of_not_isBracket _ rfl] at hzero
    exact absurd hzero hdepth
  have hassoc : quoted x ++ ' ' :: '|' :: ys = quoted x ++ [' ', '|'] ++ ys := by simp
  obtain ⟨piece, pieces, hpieces⟩ := List.exists_cons_of_ne_nil
    (splitFrom_ne_nil (· == '|') (start.after (quoted x ++ [' ', '|'])) ys)
  have hsplit : split (· == '|') (quoted x ++ ' ' :: '|' :: ys) =
      (quoted x ++ [' '] ++ '|' :: piece) :: pieces := by
    rw [hassoc, split, splitFrom_append hbar, hpieces, prepend]
    simp
  have htrim : trim (quoted x ++ [' '] ++ '|' :: piece) =
      quoted x ++ [' '] ++ '|' :: trimRight piece := by
    have hleft : trimLeft (quoted x ++ [' '] ++ '|' :: piece) = quoted x ++ [' '] ++ '|' :: piece :=
      trimLeft_cons rfl
    rw [trim, hleft, trimRight_append_cons rfl]
  rw [head?_alternatives hsplit (by rw [htrim]; simp), htrim]
  simp

/-- A literal behind which no bracket is open is an alternative by itself. -/
lemma alternatives_append_bar (h : Clean (· == '|') (quoted x)) (hdepth : depthAfter (quoted x) = 0)
    (ys : List Char) :
    alternatives (quoted x ++ ' ' :: '|' :: ' ' :: ys) = quoted x :: alternatives ys := by
  have hgap : IsBetween (· == '|') " | ".toList := by decide
  have hparts := parts_append_gap_append isNeutral_of_bar hdepth hgap rfl ys
  rw [parts_eq_singleton h (isTrimmed_quoted x), List.append_assoc] at hparts
  exact hparts

/-- The alternatives of a union are its literals just when no bar in a literal stands outside of
brackets and behind all literals but the last one no bracket is open. -/
theorem alternatives_printLiterals_iff (hne : contents ≠ []) :
    alternatives (printLiterals contents) = contents.map quoted ↔
      (∀ x ∈ contents, Clean (· == '|') (quoted x)) ∧
        ∀ x ∈ contents.dropLast, depthAfter (quoted x) = 0 := by
  induction contents with
  | nil => exact absurd rfl hne
  | cons x xs ih =>
    cases xs with
    | nil =>
      rw [printLiterals_singleton, List.dropLast_singleton, List.map_singleton]
      simp only [List.forall_mem_singleton, List.not_mem_nil, false_implies, implies_true, and_true]
      constructor
      · intro heq
        by_contra hclean
        have hhead := head?_alternatives_of_not_clean hclean []
        rw [List.append_nil, heq] at hhead
        exact hhead rfl
      · intro hclean
        rw [alternatives, split, splitFrom_eq_singleton hclean, List.map_singleton,
          (isTrimmed_quoted x).trim_eq]
        simp [quoted]
    | cons y xs =>
      rw [printLiterals_cons_cons, List.map_cons, List.dropLast_cons_cons]
      by_cases hclean : Clean (· == '|') (quoted x)
      · by_cases hdepth : depthAfter (quoted x) = 0
        · rw [alternatives_append_bar hclean hdepth, List.cons_inj_right,
            ih (List.cons_ne_nil y xs)]
          simp [hclean, hdepth]
        · have hhead := head?_alternatives_of_depth_ne_zero hclean hdepth
            (' ' :: printLiterals (y :: xs))
          have hne : ∀ rest,
              alternatives (quoted x ++ ' ' :: '|' :: ' ' :: printLiterals (y :: xs)) ≠
                quoted x :: rest := fun rest heq => hhead (by rw [heq]; rfl)
          simp [hne, hdepth]
      · have hhead := head?_alternatives_of_not_clean hclean
          (' ' :: '|' :: ' ' :: printLiterals (y :: xs))
        have hne : ∀ rest, alternatives (quoted x ++ ' ' :: '|' :: ' ' :: printLiterals (y :: xs)) ≠
            quoted x :: rest := fun rest heq => hhead (by rw [heq]; rfl)
        simp [hne, hclean]

/-! ## Arrows -/

lemma hasArrow_append_bar (hdepth : depthAfter (quoted x) = 0) (ys : List Char) :
    hasArrow (quoted x ++ ' ' :: '|' :: ' ' :: ys) = (hasArrow (quoted x) || hasArrow ys) := by
  rw [hasArrow_append hdepth (ne_angle_of_isNeutral rfl _), hasArrow_cons rfl, hasArrow_cons rfl,
    hasArrow_cons rfl]

/-- An arrow in a union is in one of its literals. -/
lemma hasArrow_printLiterals (hclosed : ∀ x ∈ contents.dropLast, depthAfter (quoted x) = 0) :
    hasArrow (printLiterals contents) = contents.any fun x => hasArrow (quoted x) := by
  induction contents with
  | nil => rfl
  | cons x xs ih =>
    cases xs with
    | nil => simp [printLiterals_singleton]
    | cons y xs =>
      rw [List.dropLast_cons_cons, List.forall_mem_cons] at hclosed
      rw [printLiterals_cons_cons, hasArrow_append_bar hclosed.1, ih hclosed.2]
      rfl

/-! ## Reading -/

lemma exists_ofName_eq (name : String) : ∃ other, ofName name = primitive other := by
  unfold ofName
  split
  · exact ⟨_, rfl⟩
  · split <;> exact ⟨_, rfl⟩

/-- What starts with a quote is an enumeration only of its own alternatives. -/
lemma of_read_eq_enumOf {cs rest : List Char} {values : List EnumValue}
    (htrim : trim cs = '\'' :: rest) (h : read cs = enumOf values) :
    hasArrow (trim cs) = false ∧
      values = (alternatives (trim cs)).map fun p => ⟨String.ofList p, false⟩ := by
  obtain ⟨tail, parts, hparts⟩ : ∃ tail parts,
      alternatives ('\'' :: rest) = ('\'' :: tail) :: parts :=
    exists_parts_eq_cons rfl rfl rest
  rw [← htrim] at hparts
  -- Alone it has no parentheses around it, and everything else is no enumeration.
  have hround : enclosed? '(' ')' ((alternatives (trim cs)).headD (trim cs)) = none := by
    simp [hparts, enclosed?]
  rw [read] at h
  split at h
  · cases h
  next hcond =>
    rw [not_or, Bool.not_eq_true] at hcond
    split at h
    · split at h
      · exact ⟨hcond.1, (enumOf.inj h).symm⟩
      · cases h
    · simp only at h
      split at h
      next heq =>
        rw [hround] at heq
        cases heq
      · split at h
        · cases h
        · split at h
          · cases h
          · split at h
            · split at h <;> cases h
            · obtain ⟨other, hother⟩ := exists_ofName_eq
                (String.ofList ((alternatives (trim cs)).headD (trim cs)))
              rw [hother] at h
              cases h

/-- What starts and ends with a quote, and is only one alternative, is read as a name. -/
lemma read_quoted_of_alternatives (harrow : hasArrow (quoted x) = false)
    (h : alternatives (quoted x) = [quoted x]) :
    read (quoted x) = primitive (String.ofList (quoted x)) := by
  have hfunction : quoted x ≠ "Function".toList := by simp [quoted]
  have hround : enclosed? '(' ')' (quoted x) = none := by simp [quoted, enclosed?]
  have hcurly : enclosed? '\x7b' '\x7d' (quoted x) = none := by simp [quoted, enclosed?]
  have hsquare : beforeBrackets? (quoted x) = none :=
    beforeBrackets?_eq_none (by simp [quoted, List.getLast?_cons])
  have harray : insideArray? (quoted x) = none := by
    rw [insideArray?, if_neg]
    rintro ⟨hstarts, -⟩
    cases hstarts
  have hname : ofName (String.ofList (quoted x)) = primitive (String.ofList (quoted x)) := by
    have hne : ∀ s : String, s.toList.head? ≠ some '\'' → String.ofList (quoted x) ≠ s := by
      rintro s hs rfl
      simp [quoted] at hs
    rw [ofName, if_neg (hne _ (by decide)), if_neg]
    rintro (heq | heq | heq | heq | heq) <;> exact hne _ (by decide) heq
  have hsingle : IsSingle (quoted x) := ⟨isTrimmed_quoted x, harrow, hfunction, h⟩
  rw [hsingle.read_eq, hround, hsquare, harray, hcurly, hname]

/-- The literals of a union are found: none of them has a bar or an arrow outside of brackets, and
behind all but the last one no bracket is open. -/
structure AreToldApart (contents : List (List Char)) : Prop where
  noBar : ∀ x ∈ contents, Clean (· == '|') (quoted x)
  noArrow : ∀ x ∈ contents, hasArrow (quoted x) = false
  closed : ∀ x ∈ contents.dropLast, depthAfter (quoted x) = 0

instance : Decidable (AreToldApart contents) :=
  decidable_of_iff ((∀ x ∈ contents, Clean (· == '|') (quoted x)) ∧
      (∀ x ∈ contents, hasArrow (quoted x) = false) ∧
        ∀ x ∈ contents.dropLast, depthAfter (quoted x) = 0)
    ⟨fun h => ⟨h.1, h.2.1, h.2.2⟩, fun h => ⟨h.noBar, h.noArrow, h.closed⟩⟩

/-- A union is read as the enumeration of its literals just when these are found. -/
theorem read_printLiterals_iff (hseveral : 2 ≤ contents.length) :
    read (printLiterals contents) = enumOf (contents.map literal) ↔ AreToldApart contents := by
  have hne : contents ≠ [] := by
    rintro rfl
    cases hseveral
  have hiff := alternatives_printLiterals_iff hne
  obtain ⟨inner, hinner⟩ := exists_printLiterals_eq hne
  have htrim : trim (printLiterals contents) = printLiterals contents := by
    rw [hinner, (isTrimmed_quoted inner).trim_eq]
  constructor
  · intro hread
    obtain ⟨harrow, hvalues⟩ := of_read_eq_enumOf (htrim.trans hinner) hread
    rw [htrim] at harrow hvalues
    have halternatives := (map_literal_eq_iff _).1 hvalues
    obtain ⟨hbar, hclosed⟩ := hiff.1 halternatives
    rw [hasArrow_printLiterals hclosed, List.any_eq_false] at harrow
    exact ⟨hbar, fun x hx => by simpa using harrow x hx, hclosed⟩
  · rintro ⟨hbar, harrow, hclosed⟩
    have halternatives := hiff.2 ⟨hbar, hclosed⟩
    have harrows : hasArrow (printLiterals contents) = false := by
      rw [hasArrow_printLiterals hclosed, List.any_eq_false]
      exact fun x hx => by simpa using harrow x hx
    have hfunction : printLiterals contents ≠ "Function".toList := by
      rw [hinner]
      intro heq
      cases heq
    have hliterals : (alternatives (printLiterals contents)).all isLiteral = true := by
      rw [halternatives, List.all_map, List.all_eq_true]
      exact fun x _ => isLiteral_quoted x
    rw [read]
    simp only [htrim]
    rw [if_neg (not_or.2 ⟨by simp [harrows], hfunction⟩), dif_pos (by simpa [halternatives]),
      if_pos hliterals, halternatives, List.map_map]
    rfl

/-! ## What is kept -/

/-- The characters that are not lost between alternatives, neither blank nor a bar. -/
def isInk (c : Char) : Bool := !isBlank c && c != '|'

/-- How many characters are not lost between alternatives. -/
def ink (cs : List Char) : Nat := cs.countP isInk

@[simp] lemma ink_nil : ink [] = 0 := rfl

@[simp] lemma ink_append (cs ds : List Char) : ink (cs ++ ds) = ink cs + ink ds :=
  List.countP_append

lemma ink_cons (c : Char) (cs : List Char) : ink (c :: cs) = ink cs + if isInk c then 1 else 0 :=
  List.countP_cons

lemma ink_of_isBlank {bs : List Char} (h : ∀ b ∈ bs, isBlank b = true) : ink bs = 0 := by
  rw [ink, List.countP_eq_zero]
  intro b hb
  simp [isInk, h b hb]

lemma ink_trimRight (cs : List Char) : ink (trimRight cs) = ink cs := by
  obtain ⟨bs, hblank, hcs⟩ := exists_eq_trimRight_append cs
  conv_rhs => rw [hcs, ink_append, ink_of_isBlank hblank, Nat.add_zero]

lemma ink_trim (cs : List Char) : ink (trim cs) = ink cs := by
  have hblank : ∀ b ∈ cs.takeWhile isBlank, isBlank b = true := fun b hb =>
    List.all_eq_true.1 List.all_takeWhile b hb
  rw [trim, ink_trimRight]
  conv_rhs => rw [← List.takeWhile_append_dropWhile (p := isBlank) (l := cs), ink_append,
    ink_of_isBlank hblank, Nat.zero_add]
  rfl

lemma ink_flatten_splitFrom (p : Place) (cs : List Char) :
    ink (splitFrom (· == '|') p cs).flatten = ink cs := by
  induction cs generalizing p with
  | nil => rfl
  | cons c cs ih =>
    have hrest := ih (p.next c)
    obtain ⟨piece, pieces, hs⟩ :=
      List.exists_cons_of_ne_nil (splitFrom_ne_nil (· == '|') (p.next c) cs)
    rw [splitFrom, ink_cons]
    split
    next hbar =>
      have hink : isInk c = false := by simp_all [isInk]
      rw [List.flatten_cons, List.nil_append, hrest, hink]
      rfl
    · rw [hs] at hrest ⊢
      simp only [List.flatten_cons, ink_append, ink_cons] at hrest ⊢
      omega

/-- Between the alternatives of a text nothing but blanks and bars is lost. -/
lemma ink_flatten_alternatives (cs : List Char) : ink (alternatives cs).flatten = ink cs := by
  have htrim : ∀ parts : List (List Char), ink (parts.map trim).flatten = ink parts.flatten := by
    intro parts
    induction parts with
    | nil => rfl
    | cons part parts ih =>
      rw [List.map_cons, List.flatten_cons, List.flatten_cons, ink_append, ink_append, ink_trim, ih]
  have hfilter : ∀ parts : List (List Char), (parts.filter (· ≠ [])).flatten = parts.flatten :=
    fun parts => List.flatten_filter_ne_nil
  rw [alternatives, hfilter, htrim, split, ink_flatten_splitFrom]

lemma ink_printLiterals (contents : List (List Char)) :
    ink (printLiterals contents) = ink (contents.map quoted).flatten := by
  induction contents with
  | nil => rfl
  | cons x xs ih =>
    cases xs with
    | nil => simp [printLiterals_singleton]
    | cons y xs =>
      have hbetween : ∀ cs, ink (' ' :: '|' :: ' ' :: cs) = ink cs := fun _ => rfl
      rw [printLiterals_cons_cons, ink_append, hbetween, ih]
      simp

/-- A text of the enumeration of some literals has as much in it as their union. -/
theorem ink_of_read_eq_enumOf {cs rest : List Char} (htrim : trim cs = '\'' :: rest)
    (h : read cs = enumOf (contents.map literal)) : ink cs = ink (printLiterals contents) := by
  obtain ⟨-, hvalues⟩ := of_read_eq_enumOf htrim h
  rw [ink_printLiterals, ← (map_literal_eq_iff _).1 hvalues, ink_flatten_alternatives, ink_trim]

end StyleGuide.PropType
