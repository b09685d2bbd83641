import StyleGuide.Proofs.Props.Bracket
import StyleGuide.Props.TypeReader

/-!
# Types between brackets

A pair of brackets keeps from the reader whatever would divide the text outside of it: the bars of
alternatives and the arrow of a function. A text that brackets hold together is therefore read by
the form of its brackets alone, and they may hold any balanced text.

## Main definitions

* `PropType.IsSingle`: the texts that are neither functions nor have alternatives.
* `PropType.divides`: the characters that divide a text outside of brackets.

## Main results

* `PropType.IsSingle.read_eq`: such a text is read by the first of the other forms that it has.
* `PropType.isSingle_append_wrap`: brackets behind a text that nothing divides.
* `PropType.read_parentheses`, `PropType.read_brackets`, `PropType.read_array`,
  `PropType.read_braces`: what the reader does with each form of brackets.
-/

namespace StyleGuide.PropType

open StyleGuide.Bracket

variable {cs front inner : List Char} {opening closing c : Char}

/-! ## Texts that nothing divides -/

/-- A text that is neither a function nor has alternatives. -/
structure IsSingle (cs : List Char) : Prop where
  isTrimmed : IsTrimmed cs
  noArrow : hasArrow cs = false
  notFunction : cs ≠ "Function".toList
  alternatives_eq : alternatives cs = [cs]

/-- Such a text is read by the first of the other forms that it has. -/
lemma IsSingle.read_eq (h : IsSingle cs) :
    read cs =
      match enclosed? '(' ')' cs with
      | some inner => read inner
      | none =>
        match beforeBrackets? cs with
        | some inner => arrayOf (read inner)
        | none =>
          match insideArray? cs with
          | some inner => arrayOf (read inner)
          | none =>
            match enclosed? '\x7b' '\x7d' cs with
            | some inner =>
              match Member.readAll inner with
              | .ok ms => shape (ms.map fun m => ofMember m (read m.type))
              | .error _ => primitive "object"
            | none => ofName (String.ofList cs) := by
  have htrim : trim cs = cs := h.isTrimmed.trim_eq
  rw [read]
  have hcond : ¬ (hasArrow (trim cs) = true ∨ trim cs = "Function".toList) := by
    rw [htrim, h.noArrow]
    exact not_or.2 ⟨by simp, h.notFunction⟩
  have hlen : ¬ 2 ≤ (alternatives (trim cs)).length := by
    rw [htrim, h.alternatives_eq]
    simp
  have hsingle : (alternatives (trim cs)).headD (trim cs) = cs := by
    rw [htrim, h.alternatives_eq]
    rfl
  rw [if_neg hcond, dif_neg hlen]
  generalize (alternatives (trim cs)).headD (trim cs) = single at hsingle
  subst hsingle
  have hattach : ∀ ms : List Member, (ms.attach.map fun m => ofMember m.1 (read m.1.type)) =
      ms.map fun m => ofMember m (read m.type) := fun ms => by simp
  simp only [hattach]
  grind

/-- The characters that divide a text outside of brackets: a bar, and the end of an arrow. -/
def divides (c : Char) : Bool := c = '|' || c = '>'

lemma divides_eq_false_of_isOpening (h : isOpening c = true) : divides c = false := by
  simp only [isOpening, Bool.or_eq_true, decide_eq_true_eq] at h
  rcases h with ((rfl | rfl) | rfl) | rfl <;> rfl

/-- Where nothing divides a text outside of its brackets, it is its own only alternative. -/
lemma isSingle_of_clean (htrimmed : IsTrimmed cs) (hclean : Clean divides cs)
    (hfunction : cs ≠ "Function".toList) : IsSingle cs := by
  have hangle : Clean (· == '>') cs := hclean.imp fun d c h hd => by simp_all [divides]
  have hbar : Clean (· == '|') cs := hclean.imp fun d c h hd => by simp_all [divides]
  refine ⟨htrimmed, hasArrow_eq_false hangle, hfunction, ?_⟩
  have hsplit : split (· == '|') cs = [cs] := splitFrom_eq_singleton hbar
  simp [alternatives, hsplit, htrimmed.trim_eq, htrimmed.ne_nil]

/-- Brackets behind a text that nothing divides hold any balanced text. -/
lemma isSingle_append_wrap (hfront : Balanced front) (hclean : Clean divides front)
    (h : Balanced inner) (hopen : isOpening opening = true)
    (htrimmed : IsTrimmed (front ++ opening :: (inner ++ [closing]))) :
    IsSingle (front ++ opening :: (inner ++ [closing])) := by
  have hdivides := divides_eq_false_of_isOpening hopen
  have hangle : opening ≠ '>' := by
    rintro rfl
    cases hdivides
  refine isSingle_of_clean htrimmed ?_ fun hfunction => ?_
  · exact hclean.append (h.clean_wrap hopen hdivides) hfront (by simpa using hangle)
  · have hmem : opening ∈ "Function".toList := by simp [← hfunction]
    rw [eq_false_of_any (f := isOpening) (by decide) hmem] at hopen
    cases hopen

/-- A pair of brackets around a balanced text. -/
lemma isSingle_wrap (h : Balanced inner) (hopen : isOpening opening = true)
    (htrimmed : IsTrimmed (opening :: (inner ++ [closing]))) :
    IsSingle (opening :: (inner ++ [closing])) :=
  isSingle_append_wrap balanced_nil trivial h hopen htrimmed

/-! ## Forms that a text does not have -/

lemma beforeBrackets?_append (cs : List Char) :
    beforeBrackets? (cs ++ "[]".toList) = some cs := by
  have hsuffix : "[]".toList.isSuffixOf (cs ++ "[]".toList) = true :=
    List.isSuffixOf_iff_suffix.2 (List.suffix_append _ _)
  have hlength : (cs ++ "[]".toList).length - 2 = cs.length := by simp
  rw [beforeBrackets?, if_pos hsuffix, hlength, List.take_left]

lemma beforeBrackets?_eq_none (h : cs.getLast? ≠ some ']') : beforeBrackets? cs = none := by
  rw [beforeBrackets?, if_neg]
  intro hsuffix
  obtain ⟨front, rfl⟩ := List.isSuffixOf_iff_suffix.1 hsuffix
  exact h (by simp [List.getLast?_append])

lemma insideArray?_wrap (inner : List Char) :
    insideArray? ("Array<".toList ++ inner ++ ['>']) = some inner := by
  have hstarts : "Array<".toList.isPrefixOf ("Array<".toList ++ inner ++ ['>']) = true := by
    rw [List.append_assoc]
    exact List.isPrefixOf_iff_prefix.2 (List.prefix_append _ _)
  have hdrop : ("Array<".toList ++ inner ++ ['>']).drop 6 = inner ++ ['>'] := by
    rw [List.append_assoc]
    rfl
  rw [insideArray?, hdrop, if_pos ⟨hstarts, by simp⟩, List.dropLast_concat]

lemma insideArray?_eq_none (h : '>' ∉ cs) : insideArray? cs = none := by
  rw [insideArray?, if_neg]
  rintro ⟨-, hlast⟩
  exact h (List.mem_of_mem_drop (List.mem_of_getLast? hlast))

/-! ## The forms of brackets -/

/-- Parentheses around a type do not count. -/
theorem read_parentheses (h : Balanced inner) : read ('(' :: (inner ++ [')'])) = read inner := by
  have htrimmed : IsTrimmed ('(' :: (inner ++ [')'])) := .of_ends rfl rfl
  rw [(isSingle_wrap h rfl htrimmed).read_eq, enclosed?_wrap h rfl]

/-- Brackets behind parentheses make an array of what is inside. -/
theorem read_brackets (h : Balanced inner) :
    read ('(' :: (inner ++ ")[]".toList)) = arrayOf (read inner) := by
  have hsplit : '(' :: (inner ++ ")[]".toList) = '(' :: (inner ++ [')']) ++ "[]".toList := by simp
  have htrimmed : IsTrimmed ('(' :: (inner ++ [')']) ++ "[]".toList) := by
    have hends : IsTrimmed ('(' :: (inner ++ [')', '['] ++ [']'])) := .of_ends rfl rfl
    simpa using hends
  have hsingle : IsSingle ('(' :: (inner ++ [')']) ++ "[]".toList) :=
    isSingle_append_wrap (h.wrap rfl rfl) (h.clean_wrap rfl rfl) balanced_nil rfl htrimmed
  have hround : enclosed? '(' ')' ('(' :: (inner ++ [')']) ++ "[]".toList) = none := by
    have hlast : (inner ++ [')'] ++ "[]".toList).getLast? = some ']' := by simp
    rw [List.cons_append, enclosed?, hlast]
    rfl
  rw [hsplit, hsingle.read_eq, hround, beforeBrackets?_append]
  simp only
  rw [read_parentheses h]

/-- The generic spelling of an array. -/
theorem read_array (h : Balanced inner) :
    read ("Array<".toList ++ inner ++ ['>']) = arrayOf (read inner) := by
  have hsplit : "Array<".toList ++ inner ++ ['>'] = "Array".toList ++ '<' :: (inner ++ ['>']) := by
    simp
  have htrimmed : IsTrimmed ("Array".toList ++ '<' :: (inner ++ ['>'])) := by
    have hends : IsTrimmed ('A' :: ("rray<".toList ++ inner ++ ['>'])) := .of_ends rfl rfl
    simpa using hends
  have hsingle : IsSingle ("Array<".toList ++ inner ++ ['>']) :=
    hsplit ▸ isSingle_append_wrap (by decide) (by decide) h rfl htrimmed
  have hround : enclosed? '(' ')' ("Array<".toList ++ inner ++ ['>']) = none := rfl
  have hsquare : beforeBrackets? ("Array<".toList ++ inner ++ ['>']) = none :=
    beforeBrackets?_eq_none (by simp [List.getLast?_cons])
  rw [hsingle.read_eq, hround, hsquare, insideArray?_wrap]

/-- What is between braces is read as the fields of a shape. -/
theorem read_braces (h : Balanced inner) {ms : List Member} (hms : Member.readAll inner = .ok ms) :
    read ('\x7b' :: (inner ++ ['\x7d'])) = shape (ms.map fun m => ofMember m (read m.type)) := by
  have htrimmed : IsTrimmed ('\x7b' :: (inner ++ ['\x7d'])) := .of_ends rfl rfl
  have hround : enclosed? '(' ')' ('\x7b' :: (inner ++ ['\x7d'])) = none := rfl
  have hsquare : beforeBrackets? ('\x7b' :: (inner ++ ['\x7d'])) = none :=
    beforeBrackets?_eq_none (by simp [List.getLast?_cons])
  have harray : insideArray? ('\x7b' :: (inner ++ ['\x7d'])) = none := rfl
  rw [(isSingle_wrap h rfl htrimmed).read_eq, hround, hsquare, harray, enclosed?_wrap h rfl]
  simp only [hms]

/-- Around a balanced text parentheses do not count, and both spellings of an array stand for the
array of what it is read as, whatever arrows, bars, brackets, quotes and blanks it has. -/
theorem read_enclosed (h : Balanced cs) :
    read ('(' :: (cs ++ [')'])) = read cs ∧
      read ('(' :: (cs ++ ")[]".toList)) = arrayOf (read cs) ∧
      read ("Array<".toList ++ cs ++ ['>']) = arrayOf (read cs) :=
  ⟨read_parentheses h, read_brackets h, read_array h⟩

/-- A function with an array among its parameters, its bar and arrow being outside of brackets. -/
theorem read_enclosed_function :
    read "(a: 'x'[]) => 1 | b".toList = primitive "func" ∧
      read "((a: 'x'[]) => 1 | b)".toList = primitive "func" ∧
      read "((a: 'x'[]) => 1 | b)[]".toList = arrayOf (primitive "func") ∧
      read "Array<(a: 'x'[]) => 1 | b>".toList = arrayOf (primitive "func") := by
  have hfunction : read "(a: 'x'[]) => 1 | b".toList = primitive "func" := by
    rw [read, if_pos (by decide)]
  have hbalanced : Balanced "(a: 'x'[]) => 1 | b".toList := by decide
  obtain ⟨hround, hsquare, hangle⟩ := read_enclosed hbalanced
  rw [hfunction] at hround hsquare hangle
  exact ⟨hfunction, hround, hsquare, hangle⟩

end StyleGuide.PropType
