import StyleGuide.Proofs.Text.Blank
import StyleGuide.Proofs.Text.Cut
import StyleGuide.Props.Literal

/-!
# Single literals

Whether a text is a literal is told from its first and its last character, or from its being a
number as numbers are read elsewhere. The literals of the language are others: a string ends at the
first of its quotes that no backslash stands before, the words for infinity are names, and there are
numerals with underscores, with a mark for whole numbers of any size, or to other bases.

## Main definitions

* `IsSingleLiteral`: the texts that are one literal of the language.
* `IsMisjudged`: the texts that are taken for something else.

## Main results

* `isNumber_iff`: the texts that are read as numbers.
* `isLiteral_agrees_iff`: literals are told from other texts just where they are not misjudged.
-/

namespace StyleGuide

/-! ## Strings -/

/-- Whether each quote `q` in a text stands behind a backslash, which stands in front of another
character itself. -/
def isStringBody (q : Char) : List Char → Bool
  | [] => true
  | '\\' :: rest =>
    match rest with
    | [] => false
    | _ :: rest => isStringBody q rest
  | c :: rest => c ≠ q && isStringBody q rest

/-- The marks around a string. -/
def quotes : List Char := ['\'', '"', '\x60']

/-- The text is one string. -/
def IsStringLiteral (cs : List Char) : Prop :=
  ∃ q ∈ quotes, ∃ body, cs = q :: (body ++ [q]) ∧ isStringBody q body = true

/-! ## Numerals -/

/-- At least one digit, and nothing else. -/
def IsPlainRun (ds : List Char) : Prop := ds ≠ [] ∧ ∀ c ∈ ds, c.isDigit = true

/-- Digits with single underscores between them. -/
def IsRun (digit : Char → Bool) (ds : List Char) : Prop :=
  ∀ run ∈ cut (· == '_') ds, run ≠ [] ∧ ∀ c ∈ run, digit c = true

/-- An exponent, or nothing. -/
def IsExponent (Run : List Char → Prop) (cs : List Char) : Prop :=
  cs = [] ∨ ∃ mark sign ds, cs = mark :: (sign ++ ds) ∧ (mark = 'e' ∨ mark = 'E') ∧
    sign ∈ [[], ['+'], ['-']] ∧ Run ds

/-- A decimal numeral, whose runs of digits are as `Run` says. -/
inductive IsDecimal (Run : List Char → Prop) : List Char → Prop
  | whole {ds exponent : List Char} : Run ds → IsExponent Run exponent →
      IsDecimal Run (ds ++ exponent)
  | point {ds exponent : List Char} : Run ds → IsExponent Run exponent →
      IsDecimal Run (ds ++ '.' :: exponent)
  | fraction {ds frac exponent : List Char} : ds = [] ∨ Run ds → Run frac →
      IsExponent Run exponent → IsDecimal Run (ds ++ '.' :: (frac ++ exponent))

/-- The digits behind a mark for another base. -/
def isRadixDigit (mark c : Char) : Bool :=
  match mark with
  | 'x' | 'X' => c.isDigit || ('a' ≤ c && c ≤ 'f') || ('A' ≤ c && c ≤ 'F')
  | 'o' | 'O' => '0' ≤ c && c ≤ '7'
  | 'b' | 'B' => c = '0' || c = '1'
  | _ => false

/-- The numerals that are no plain decimals. -/
inductive IsOtherNumeral : List Char → Prop
  | separated {cs : List Char} : IsDecimal (IsRun Char.isDigit) cs → '_' ∈ cs → IsOtherNumeral cs
  | integer {ds : List Char} : IsRun Char.isDigit ds → IsOtherNumeral (ds ++ ['n'])
  | radix {mark : Char} {ds suffix : List Char} : IsRun (isRadixDigit mark) ds →
      suffix = [] ∨ suffix = ['n'] → IsOtherNumeral ('0' :: mark :: (ds ++ suffix))

/-- The words that are read as numbers. -/
def numberWords : List (List Char) := ["inf".toList, "infinity".toList, "nan".toList]

/-- The text is such a word, in any case, maybe behind a sign. -/
def IsNumberWord (cs : List Char) : Prop := (dropSign cs).map Char.toLower ∈ numberWords

/-- The text is one literal of the language: a string, a truth value or a number, which may have a
sign. -/
inductive IsSingleLiteral (cs : List Char) : Prop
  | string : IsStringLiteral cs → IsSingleLiteral cs
  | truth : cs = "true".toList ∨ cs = "false".toList → IsSingleLiteral cs
  | decimal : IsDecimal IsPlainRun (dropSign cs) → IsSingleLiteral cs
  | other : IsOtherNumeral (dropSign cs) → IsSingleLiteral cs

/-- The texts that are taken for a literal that they are not, or not for the literal that they
are. -/
inductive IsMisjudged (cs : List Char) : Prop
  | quoted : isQuoted cs = true → ¬ IsStringLiteral cs → IsMisjudged cs
  | word : IsNumberWord cs → IsMisjudged cs
  | numeral : IsOtherNumeral (dropSign cs) → IsMisjudged cs

/-! ## What is read as a number -/

variable {cs ds frac exponent : List Char}

lemma exists_sign (cs : List Char) : ∃ sign ∈ [[], ['+'], ['-']], cs = sign ++ dropSign cs := by
  unfold dropSign
  split
  · exact ⟨['+'], by simp, rfl⟩
  · exact ⟨['-'], by simp, rfl⟩
  · exact ⟨[], by simp, rfl⟩

/-- Digits are not signs. -/
lemma dropSign_append {sign : List Char} (hsign : sign ∈ [[], ['+'], ['-']]) (hds : IsPlainRun ds) :
    dropSign (sign ++ ds) = ds := by
  obtain ⟨c, ds, rfl⟩ := List.exists_cons_of_ne_nil hds.1
  have hc : c.isDigit = true := hds.2 c List.mem_cons_self
  simp only [List.mem_cons, List.not_mem_nil, or_false] at hsign
  rcases hsign with rfl | rfl | rfl
  · have hplus : c ≠ '+' := by rintro rfl; cases hc
    have hminus : c ≠ '-' := by rintro rfl; cases hc
    simp [dropSign, hplus, hminus]
  · rfl
  · rfl

lemma isPlainRun_iff : IsPlainRun ds ↔ (ds ≠ [] && ds.all Char.isDigit) = true := by
  simp [IsPlainRun]

lemma isExponentOrEnd_iff : isExponentOrEnd cs = true ↔ IsExponent IsPlainRun cs := by
  cases cs with
  | nil => exact iff_of_true rfl (.inl rfl)
  | cons c rest =>
    have heq : isExponentOrEnd (c :: rest) = true ↔
        (c = 'e' ∨ c = 'E') ∧ IsPlainRun (dropSign rest) := by
      rw [isPlainRun_iff]
      simp [isExponentOrEnd]
    rw [heq]
    constructor
    · rintro ⟨hmark, hds⟩
      obtain ⟨sign, hsign, hrest⟩ := exists_sign rest
      exact .inr ⟨c, sign, _, by rw [← hrest], hmark, hsign, hds⟩
    · rintro (hnil | ⟨mark, sign, ds, hcons, hmark, hsign, hds⟩)
      · cases hnil
      · obtain ⟨rfl, rfl⟩ := List.cons.inj hcons
        rw [dropSign_append hsign hds]
        exact ⟨hmark, hds⟩

/-- What cannot go on with a run of digits: a point, an exponent or the end. -/
def NoDigitHead (cs : List Char) : Prop := ∀ c, cs.head? = some c → c.isDigit = false

lemma IsExponent.noDigitHead {Run : List Char → Prop} (h : IsExponent Run exponent) :
    NoDigitHead exponent := by
  rcases h with rfl | ⟨mark, sign, ds, rfl, rfl | rfl, -⟩
  · rintro c ⟨⟩
  · rintro c ⟨⟩
    rfl
  · rintro c ⟨⟩
    rfl

/-- A run of digits ends in front of what cannot go on with it. -/
lemma takeWhile_isDigit (hds : ∀ c ∈ ds, c.isDigit = true) (hcs : NoDigitHead cs) :
    (ds ++ cs).takeWhile Char.isDigit = ds ∧ (ds ++ cs).dropWhile Char.isDigit = cs := by
  rw [List.takeWhile_append_of_pos hds, List.dropWhile_append_of_pos hds]
  cases cs with
  | nil => simp
  | cons c cs =>
    have hc : ¬ c.isDigit = true := by simp [hcs c rfl]
    rw [List.takeWhile_cons_of_neg hc, List.dropWhile_cons_of_neg hc, List.append_nil]
    exact ⟨rfl, rfl⟩

/-- What is read as a number that is no word. -/
def isDecimal (cs : List Char) : Bool :=
  match cs.dropWhile Char.isDigit with
  | '.' :: frac =>
    (cs.takeWhile Char.isDigit ≠ [] || (frac.takeWhile Char.isDigit) ≠ []) &&
      isExponentOrEnd (frac.dropWhile Char.isDigit)
  | _ => cs.takeWhile Char.isDigit ≠ [] && isExponentOrEnd (cs.dropWhile Char.isDigit)

/-- Without a point. -/
lemma isDecimal_append (hds : ∀ c ∈ ds, c.isDigit = true)
    (hexponent : IsExponent IsPlainRun exponent) :
    isDecimal (ds ++ exponent) = decide (ds ≠ []) := by
  obtain ⟨htake, hdrop⟩ := takeWhile_isDigit hds hexponent.noDigitHead
  have hend := isExponentOrEnd_iff.2 hexponent
  have hpoint : ∀ frac, exponent ≠ '.' :: frac := by
    rcases hexponent with rfl | ⟨mark, sign, ds, rfl, rfl | rfl, -⟩ <;> simp
  unfold isDecimal
  rw [htake, hdrop]
  split
  · exact absurd rfl (hpoint _)
  · rw [hend, Bool.and_true]

/-- With a point. -/
lemma isDecimal_append_point (hds : ∀ c ∈ ds, c.isDigit = true)
    (hfrac : ∀ c ∈ frac, c.isDigit = true) (hexponent : IsExponent IsPlainRun exponent) :
    isDecimal (ds ++ '.' :: (frac ++ exponent)) = (decide (ds ≠ []) || decide (frac ≠ [])) := by
  have hpoint : NoDigitHead ('.' :: (frac ++ exponent)) := by
    rintro c ⟨⟩
    rfl
  obtain ⟨htake, hdrop⟩ := takeWhile_isDigit hds hpoint
  obtain ⟨htake', hdrop'⟩ := takeWhile_isDigit hfrac hexponent.noDigitHead
  unfold isDecimal
  rw [htake, hdrop]
  simp only
  rw [htake', hdrop', isExponentOrEnd_iff.2 hexponent, Bool.and_true]

lemma isDigit_of_mem_takeWhile {c : Char} (h : c ∈ cs.takeWhile Char.isDigit) : c.isDigit = true :=
  List.all_eq_true.1 List.all_takeWhile c h

lemma isDecimal_iff : isDecimal cs = true ↔ IsDecimal IsPlainRun cs := by
  constructor
  · intro h
    have hsplit := List.takeWhile_append_dropWhile (p := Char.isDigit) (l := cs)
    have hrun : ∀ {ds : List Char}, ds.takeWhile Char.isDigit ≠ [] →
        IsPlainRun (ds.takeWhile Char.isDigit) :=
      fun hne => ⟨hne, fun c hc => isDigit_of_mem_takeWhile hc⟩
    unfold isDecimal at h
    split at h
    next frac hrest =>
      rw [Bool.and_eq_true, isExponentOrEnd_iff] at h
      obtain ⟨hdigits, hexponent⟩ := h
      have hfrac := List.takeWhile_append_dropWhile (p := Char.isDigit) (l := frac)
      rw [hrest] at hsplit
      by_cases hnone : frac.takeWhile Char.isDigit = []
      · rw [hnone, List.nil_append] at hfrac
        rw [hfrac] at hexponent
        rw [← hsplit]
        exact .point (hrun (by simpa [hnone] using hdigits)) hexponent
      · rw [← hsplit, ← hfrac]
        exact .fraction (or_iff_not_imp_left.2 hrun) (hrun hnone) hexponent
    · rw [Bool.and_eq_true, isExponentOrEnd_iff] at h
      rw [← hsplit]
      exact .whole (hrun (by simpa using h.1)) h.2
  · intro h
    cases h with
    | whole hds hexponent =>
      rw [isDecimal_append hds.2 hexponent]
      simpa using hds.1
    | @point ds exponent hds hexponent =>
      have hdecimal := isDecimal_append_point hds.2 (List.forall_mem_nil _) hexponent
      rw [List.nil_append] at hdecimal
      rw [hdecimal]
      simp [hds.1]
    | @fraction ds frac exponent hds hfrac hexponent =>
      have hdigits : ∀ c ∈ ds, c.isDigit = true :=
        hds.elim (fun h => h ▸ List.forall_mem_nil _) (·.2)
      rw [isDecimal_append_point hdigits hfrac.2 hexponent]
      simp [hfrac.1]

/-- The texts that are read as numbers are the plain decimals and the words. -/
theorem isNumber_iff :
    isNumber cs = true ↔ IsNumberWord cs ∨ IsDecimal IsPlainRun (dropSign cs) := by
  have heq : isNumber cs = (String.ofList ((dropSign cs).map Char.toLower) == "inf" ||
      String.ofList ((dropSign cs).map Char.toLower) == "infinity" ||
      String.ofList ((dropSign cs).map Char.toLower) == "nan" || isDecimal (dropSign cs)) := rfl
  have hword : ∀ (ds : List Char) (w : String), (String.ofList ds == w) = true ↔ ds = w.toList := by
    intro ds w
    rw [beq_iff_eq, ← String.toList_inj, String.toList_ofList]
  rw [heq, Bool.or_eq_true, Bool.or_eq_true, Bool.or_eq_true, hword, hword, hword, isDecimal_iff]
  simp [IsNumberWord, numberWords, or_assoc]

/-! ## What is taken for a literal -/

/-- The characters of a plain decimal. -/
def isDecimalChar (c : Char) : Bool :=
  c.isDigit || c = '.' || c = 'e' || c = 'E' || c = '+' || c = '-'

/-- The first character of a numeral. -/
def startsNumeral (c : Char) : Prop := c.isDigit = true ∨ c = '.'

lemma isDecimalChar_of_isDigit {c : Char} (h : c.isDigit = true) : isDecimalChar c = true := by
  simp [isDecimalChar, h]

lemma IsExponent.forall_isDecimalChar (h : IsExponent IsPlainRun exponent) :
    ∀ c ∈ exponent, isDecimalChar c = true := by
  rcases h with rfl | ⟨mark, sign, ds, rfl, hmark, hsign, hds⟩
  · exact List.forall_mem_nil _
  · intro c hc
    rw [List.mem_cons, List.mem_append] at hc
    rcases hc with rfl | hc | hc
    · rcases hmark with rfl | rfl <;> rfl
    · simp only [List.mem_cons, List.not_mem_nil, or_false] at hsign
      rcases hsign with rfl | rfl | rfl
      · cases hc
      · cases List.mem_singleton.1 hc
        rfl
      · cases List.mem_singleton.1 hc
        rfl
    · exact isDecimalChar_of_isDigit (hds.2 c hc)

lemma IsDecimal.forall_isDecimalChar (h : IsDecimal IsPlainRun cs) :
    ∀ c ∈ cs, isDecimalChar c = true := by
  have hrun : ∀ {ds : List Char}, IsPlainRun ds → ∀ c ∈ ds, isDecimalChar c = true :=
    fun hds c hc => isDecimalChar_of_isDigit (hds.2 c hc)
  cases h with
  | whole hds hexponent =>
    exact List.forall_mem_append.2 ⟨hrun hds, hexponent.forall_isDecimalChar⟩
  | point hds hexponent =>
    exact List.forall_mem_append.2
      ⟨hrun hds, List.forall_mem_cons.2 ⟨rfl, hexponent.forall_isDecimalChar⟩⟩
  | fraction hds hfrac hexponent =>
    refine List.forall_mem_append.2 ⟨?_, List.forall_mem_cons.2 ⟨rfl,
      List.forall_mem_append.2 ⟨hrun hfrac, hexponent.forall_isDecimalChar⟩⟩⟩
    exact hds.elim (fun hnil => hnil ▸ List.forall_mem_nil _) hrun

lemma IsRun.exists_head? {digit : Char → Bool} (h : IsRun digit ds) :
    ∃ c, ds.head? = some c ∧ digit c = true := by
  obtain ⟨rest, hcut⟩ := exists_cut_eq (· == '_') ds
  obtain ⟨hne, hdigits⟩ := h (ds.takeWhile (!(· == '_') ·)) (by simp [hcut])
  cases ds with
  | nil => exact absurd rfl hne
  | cons c ds =>
    refine ⟨c, rfl, hdigits c ?_⟩
    by_cases hc : c = '_'
    · simp [hc] at hne
    · simp [hc]

lemma IsDecimal.exists_head? {Run : List Char → Prop}
    (hRun : ∀ ds, Run ds → ∃ c, ds.head? = some c ∧ c.isDigit = true) (h : IsDecimal Run cs) :
    ∃ c, cs.head? = some c ∧ startsNumeral c := by
  have hdigit : ∀ {ds : List Char}, Run ds →
      ∀ more, ∃ c, (ds ++ more).head? = some c ∧ startsNumeral c := by
    intro ds hds more
    obtain ⟨c, hc, hdigit⟩ := hRun ds hds
    exact ⟨c, by simp [hc], .inl hdigit⟩
  cases h with
  | whole hds _ => exact hdigit hds _
  | point hds _ => exact hdigit hds _
  | fraction hds _ _ =>
    rcases hds with rfl | hds
    · exact ⟨'.', rfl, .inr rfl⟩
    · exact hdigit hds _

lemma IsDecimal.exists_head?_plain (h : IsDecimal IsPlainRun cs) :
    ∃ c, cs.head? = some c ∧ startsNumeral c := by
  refine h.exists_head? fun ds hds => ?_
  obtain ⟨c, tail, rfl⟩ := List.exists_cons_of_ne_nil hds.1
  exact ⟨c, rfl, hds.2 c List.mem_cons_self⟩

lemma IsOtherNumeral.exists_head? (h : IsOtherNumeral cs) :
    ∃ c, cs.head? = some c ∧ startsNumeral c := by
  cases h with
  | separated hdecimal _ => exact hdecimal.exists_head? fun ds hds => hds.exists_head?
  | integer hds =>
    obtain ⟨c, hc, hdigit⟩ := hds.exists_head?
    exact ⟨c, by simp [hc], .inl hdigit⟩
  | radix _ _ => exact ⟨'0', rfl, .inl rfl⟩

/-- No other numeral is a plain decimal. -/
lemma IsOtherNumeral.exists_not_isDecimalChar (h : IsOtherNumeral cs) :
    ∃ c ∈ cs, isDecimalChar c = false := by
  cases h with
  | separated _ hunderscore => exact ⟨'_', hunderscore, rfl⟩
  | integer _ => exact ⟨'n', by simp, rfl⟩
  | @radix mark ds suffix hds _ =>
    obtain ⟨c, -, hdigit⟩ := hds.exists_head?
    refine ⟨mark, by simp, ?_⟩
    unfold isRadixDigit at hdigit
    split at hdigit <;> first | rfl | cases hdigit

/-- The first character behind a sign is as `p` says. -/
def StartsWith (p : Char → Prop) (cs : List Char) : Prop := ∃ c, (dropSign cs).head? = some c ∧ p c

/-- A text does not start in two ways that exclude each other. -/
lemma StartsWith.not {p p' : Char → Prop} (hp : ∀ c, p c → ¬ p' c) (h : StartsWith p cs) :
    ¬ StartsWith p' cs := by
  rintro ⟨c', hc', hp'⟩
  obtain ⟨c, hc, hpc⟩ := h
  rw [hc] at hc'
  cases hc'
  exact hp _ hpc hp'

lemma startsWith_of_isQuoted (h : isQuoted cs = true) : StartsWith (· ∈ quotes) cs := by
  cases cs with
  | nil => cases h
  | cons q rest =>
    simp only [isQuoted, Bool.and_eq_true, Bool.or_eq_true, decide_eq_true_eq] at h
    rcases h.1 with (rfl | rfl) | rfl
    · exact ⟨_, rfl, by decide⟩
    · exact ⟨_, rfl, by decide⟩
    · exact ⟨_, rfl, by decide⟩

lemma startsWith_of_truth (h : cs = "true".toList ∨ cs = "false".toList) :
    StartsWith (fun c => c = 't' ∨ c = 'f') cs := by
  rcases h with rfl | rfl
  · exact ⟨'t', rfl, .inl rfl⟩
  · exact ⟨'f', rfl, .inr rfl⟩

lemma startsWith_of_isNumberWord (h : IsNumberWord cs) :
    StartsWith (fun c => c.toLower = 'i' ∨ c.toLower = 'n') cs := by
  have hmap : ((dropSign cs).map Char.toLower).head? = some 'i' ∨
      ((dropSign cs).map Char.toLower).head? = some 'n' := by
    simp only [IsNumberWord, numberWords, List.mem_cons, List.not_mem_nil, or_false] at h
    rcases h with h | h | h <;> rw [h] <;> simp
  rw [List.head?_map, Option.map_eq_some_iff, Option.map_eq_some_iff] at hmap
  rcases hmap with ⟨c, hc, hlower⟩ | ⟨c, hc, hlower⟩
  · exact ⟨c, hc, .inl hlower⟩
  · exact ⟨c, hc, .inr hlower⟩

lemma toLower_of_isDigit {c : Char} (h : c.isDigit = true) : c.toLower = c := by
  simp only [Char.isDigit, Bool.and_eq_true, decide_eq_true_eq] at h
  refine dif_neg fun hupper => ?_
  have hle : (65 : UInt32) ≤ 57 := UInt32.le_trans hupper.1 h.2
  exact absurd hle (by decide)

lemma not_startsNumeral_of_word {c : Char} (h : c.toLower = 'i' ∨ c.toLower = 'n') :
    ¬ startsNumeral c := by
  rintro (hdigit | rfl)
  · rw [toLower_of_isDigit hdigit] at h
    rcases h with rfl | rfl <;> cases hdigit
  · rcases h with h | h <;> cases h

/-- What is taken for a literal, by its sorts. -/
lemma isLiteral_iff (h : IsTrimmed cs) : isLiteral cs = true ↔
    isQuoted cs = true ∨ (cs = "true".toList ∨ cs = "false".toList) ∨ IsNumberWord cs ∨
      IsDecimal IsPlainRun (dropSign cs) := by
  rw [isLiteral, h.trim_eq, Bool.or_eq_true, Bool.or_eq_true, Bool.or_eq_true, beq_iff_eq,
    beq_iff_eq, isNumber_iff, or_assoc, or_assoc, or_assoc]

lemma IsStringLiteral.isQuoted (h : IsStringLiteral cs) : isQuoted cs = true := by
  obtain ⟨q, hq, body, rfl, -⟩ := h
  simp only [quotes, List.mem_cons, List.not_mem_nil, or_false] at hq
  rcases hq with rfl | rfl | rfl <;> simp [StyleGuide.isQuoted]

/-! ## What is misjudged -/

/-- The sorts of literals start with different characters. -/
lemma not_startsOther_of_mem_quotes {q : Char} (h : q ∈ quotes) :
    ¬ (q = 't' ∨ q = 'f') ∧ ¬ startsNumeral q ∧ ¬ (q.toLower = 'i' ∨ q.toLower = 'n') := by
  simp only [quotes, List.mem_cons, List.not_mem_nil, or_false] at h
  rcases h with rfl | rfl | rfl <;> simp [startsNumeral]

lemma not_startsOther_of_truth {c : Char} (h : c = 't' ∨ c = 'f') :
    ¬ startsNumeral c ∧ ¬ (c.toLower = 'i' ∨ c.toLower = 'n') := by
  rcases h with rfl | rfl <;> simp [startsNumeral]

/-- A literal between quotes is a string. -/
lemma IsSingleLiteral.isStringLiteral (h : IsSingleLiteral cs) (hquoted : isQuoted cs = true) :
    IsStringLiteral cs := by
  have hstarts := startsWith_of_isQuoted hquoted
  cases h with
  | string hs => exact hs
  | truth ht =>
    exact absurd (startsWith_of_truth ht)
      (hstarts.not fun q hq => (not_startsOther_of_mem_quotes hq).1)
  | decimal hd =>
    exact absurd hd.exists_head?_plain
      (hstarts.not fun q hq => (not_startsOther_of_mem_quotes hq).2.1)
  | other ho =>
    exact absurd ho.exists_head?
      (hstarts.not fun q hq => (not_startsOther_of_mem_quotes hq).2.1)

/-- The words that are read as numbers are names. -/
lemma IsNumberWord.not_isSingleLiteral (h : IsNumberWord cs) : ¬ IsSingleLiteral cs := by
  have hstarts := startsWith_of_isNumberWord h
  intro hsingle
  cases hsingle with
  | string hs =>
    exact (startsWith_of_isQuoted hs.isQuoted).not
      (fun q hq => (not_startsOther_of_mem_quotes hq).2.2) hstarts
  | truth ht =>
    exact (startsWith_of_truth ht).not (fun c hc => (not_startsOther_of_truth hc).2) hstarts
  | decimal hd =>
    exact hstarts.not (fun c hc => not_startsNumeral_of_word hc) hd.exists_head?_plain
  | other ho => exact hstarts.not (fun c hc => not_startsNumeral_of_word hc) ho.exists_head?

/-- No other numeral is taken for a literal. -/
lemma IsOtherNumeral.not_isLiteral (h : IsOtherNumeral (dropSign cs)) (htrim : IsTrimmed cs) :
    ¬ isLiteral cs = true := by
  have hstarts : StartsWith startsNumeral cs := h.exists_head?
  rw [isLiteral_iff htrim]
  rintro (hquoted | ht | hw | hd)
  · exact (startsWith_of_isQuoted hquoted).not
      (fun q hq => (not_startsOther_of_mem_quotes hq).2.1) hstarts
  · exact (startsWith_of_truth ht).not (fun c hc => (not_startsOther_of_truth hc).1) hstarts
  · exact (startsWith_of_isNumberWord hw).not (fun c hc => not_startsNumeral_of_word hc) hstarts
  · obtain ⟨c, hc, hother⟩ := h.exists_not_isDecimalChar
    rw [hd.forall_isDecimalChar c hc] at hother
    cases hother

/-- Literals are told from other texts just where they are not misjudged. -/
theorem isLiteral_agrees_iff (h : IsTrimmed cs) :
    (isLiteral cs = true ↔ IsSingleLiteral cs) ↔ ¬ IsMisjudged cs := by
  constructor
  · rintro hagree (⟨hquoted, hstring⟩ | hw | ho)
    · exact hstring ((hagree.1 ((isLiteral_iff h).2 (.inl hquoted))).isStringLiteral hquoted)
    · exact hw.not_isSingleLiteral (hagree.1 ((isLiteral_iff h).2 (.inr (.inr (.inl hw)))))
    · exact ho.not_isLiteral h (hagree.2 (.other ho))
  · intro hnot
    rw [isLiteral_iff h]
    constructor
    · rintro (hquoted | ht | hw | hd)
      · by_contra hsingle
        exact hnot (.quoted hquoted fun hs => hsingle (.string hs))
      · exact .truth ht
      · exact absurd (.word hw) hnot
      · exact .decimal hd
    · intro hsingle
      cases hsingle with
      | string hs => exact .inl hs.isQuoted
      | truth ht => exact .inr (.inl ht)
      | decimal hd => exact .inr (.inr (.inr hd))
      | other ho => exact absurd (.numeral ho) hnot

end StyleGuide
