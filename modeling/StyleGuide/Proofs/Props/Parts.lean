import StyleGuide.Proofs.Props.Member

/-!
# Parts of a text between separators

Where no bracket is open and no arrow has begun, a text looks as from its start. So a separator at
depth zero cuts a text into what stands before and behind it, and each of the two has the parts, the
arrows and the depth that it has alone. What is blank makes no parts.

## Main definitions

* `Bracket.Place.IsFresh`: the places from which a text looks as from the start.
* `Bracket.isNeutral`: the characters behind which a place is fresh if no bracket is open.
* `Bracket.parts`: the parts of a text between separators, without the blanks around them.
* `Bracket.spread`: texts with gaps between them.

## Main results

* `Bracket.split_append_cons`: what a separator at depth zero cuts.
* `Bracket.parts_append_gap_append`: separators and blanks between two texts only tell them apart.
* `Bracket.depthAfter_spread`, `Bracket.along_spread`, `Bracket.hasArrow_spread`,
  `Bracket.parts_spread`: texts with gaps between them look as each of them alone.
-/

namespace StyleGuide.Bracket

variable {P : Int → Char → Prop} {p : Place} {sep : Char → Bool} {cs gap xs ys : List Char}
  {b c s : Char}

/-! ## Fresh places -/

/-- No bracket is open, and a `>` would not end an arrow. -/
structure Place.IsFresh (p : Place) : Prop where
  depth : p.depth = 0
  before : p.before ≠ some '='

namespace Place.IsFresh

lemma next_eq (h : p.IsFresh) (c : Char) : p.next c = start.next c := by
  have hbefore : (p.before != some '=') = true := by simpa using h.before
  have hclosing : isClosing p.before c = isClosing start.before c := by
    have hstart : (start.before != some '=') = true := rfl
    rw [isClosing, isClosing, hbefore, hstart]
  rw [Place.next, Place.next, hclosing, h.depth]
  rfl

lemma depth_after (h : p.IsFresh) (cs : List Char) : (p.after cs).depth = depthAfter cs := by
  cases cs with
  | nil => exact h.depth
  | cons c cs => rw [after_cons, h.next_eq, ← after_cons, depthAfter_eq]

lemma along_iff (h : p.IsFresh) : Along P p cs ↔ Along P start cs := by
  cases cs with
  | nil => rfl
  | cons c cs => rw [Along, Along, h.next_eq, h.depth]; rfl

lemma splitFrom_eq (h : p.IsFresh) (sep : Char → Bool) (cs : List Char) :
    splitFrom sep p cs = split sep cs := by
  cases cs with
  | nil => rfl
  | cons c cs =>
    rw [split, splitFrom, splitFrom, h.next_eq, h.depth]
    rfl

lemma hasArrowFrom_eq (h : p.IsFresh) (cs : List Char) : hasArrowFrom p cs = hasArrow cs := by
  cases cs with
  | nil => rfl
  | cons c cs =>
    have hbefore : (p.before == some '=') = false := by simpa using h.before
    rw [hasArrow, hasArrowFrom, hasArrowFrom, h.next_eq, hbefore]
    simp [start]

end Place.IsFresh

/-- A character that takes no part in the nesting, and begins no arrow. -/
def isNeutral (c : Char) : Bool := !isBracket c && c != '='

/-- A property that only neutral characters have. -/
lemma isNeutral_of {f : Char → Bool}
    (hf : ['(', '[', '\x7b', '<', ')', ']', '\x7d', '>', '='].any f = false) (hc : f c = true) :
    isNeutral c = true := by
  have hbrackets : ['(', '[', '\x7b', '<', ')', ']', '\x7d', '>'].any f = false := by
    simp only [List.any_cons, List.any_nil, Bool.or_false, Bool.or_eq_false_iff] at hf ⊢
    tauto
  have hequals : c ≠ '=' := by
    rintro rfl
    rw [eq_false_of_any hf (by simp)] at hc
    cases hc
  simp [isNeutral, isBracket_eq_false_of hbrackets hc, hequals]

lemma isNeutral_of_isBlank (h : isBlank c = true) : isNeutral c = true := isNeutral_of (by decide) h

lemma isNeutral_of_bar (c : Char) (h : (c == '|') = true) : isNeutral c = true := by
  rw [beq_iff_eq.1 h]
  rfl

lemma isBracket_eq_false_of_isNeutral (h : isNeutral c = true) : isBracket c = false := by
  simp only [isNeutral, Bool.and_eq_true, Bool.not_eq_true'] at h
  exact h.1

/-- Behind a neutral character a place is fresh if it was at depth zero. -/
lemma isFresh_next (hp : p.depth = 0) (hc : isNeutral c = true) : (p.next c).IsFresh := by
  have hbracket := isBracket_eq_false_of_isNeutral hc
  refine ⟨(next_depth_of_not_isBracket p hbracket).trans hp, ?_⟩
  have hequals : c ≠ '=' := by simp_all [isNeutral]
  simpa [Place.next] using hequals

/-! ## Behind neutral characters -/

lemma depthAfter_cons (hs : isNeutral s = true) (ys : List Char) :
    depthAfter (s :: ys) = depthAfter ys :=
  (isFresh_next rfl hs).depth_after ys

lemma along_cons (hs : isNeutral s = true) :
    Along P start (s :: ys) ↔ P 0 s ∧ Along P start ys := by
  rw [Along, (isFresh_next rfl hs).along_iff]
  rfl

lemma hasArrow_cons (hs : isNeutral s = true) (ys : List Char) :
    hasArrow (s :: ys) = hasArrow ys := by
  rw [hasArrow, hasArrowFrom, (isFresh_next rfl hs).hasArrowFrom_eq]
  simp [start]

section Neutral

variable (hgap : ∀ c ∈ gap, isNeutral c = true)

include hgap

/-- Neutral characters in front of a text do not matter for its depth. -/
lemma depthAfter_neutral_append (ys : List Char) : depthAfter (gap ++ ys) = depthAfter ys := by
  induction gap with
  | nil => rfl
  | cons c gap ih =>
    obtain ⟨hc, hgap⟩ := List.forall_mem_cons.1 hgap
    rw [List.cons_append, depthAfter_cons hc, ih hgap]

lemma along_neutral_append :
    Along P start (gap ++ ys) ↔ (∀ c ∈ gap, P 0 c) ∧ Along P start ys := by
  induction gap with
  | nil => simp
  | cons c gap ih =>
    obtain ⟨hc, hgap⟩ := List.forall_mem_cons.1 hgap
    rw [List.cons_append, along_cons hc, ih hgap, List.forall_mem_cons, and_assoc]

lemma hasArrow_neutral_append (ys : List Char) : hasArrow (gap ++ ys) = hasArrow ys := by
  induction gap with
  | nil => rfl
  | cons c gap ih =>
    obtain ⟨hc, hgap⟩ := List.forall_mem_cons.1 hgap
    rw [List.cons_append, hasArrow_cons hc, ih hgap]

end Neutral

/-- Blanks around a text do not matter for its depth. -/
lemma depthAfter_trim (cs : List Char) : depthAfter (trim cs) = depthAfter cs := by
  obtain ⟨before, hbefore, hfront⟩ := exists_eq_append_trimLeft cs
  obtain ⟨after, hafter, hback⟩ := exists_eq_trimRight_append (trimLeft cs)
  have hneutral : ∀ b ∈ before, isNeutral b = true :=
    fun b hb => isNeutral_of_isBlank (hbefore b hb)
  conv_rhs => rw [hfront, depthAfter_neutral_append hneutral, hback, depthAfter_eq, after_append,
    (balanced_of_isBlank hafter).after_depth]
  rfl

/-- Blanks around a text make no arrows, and part none. -/
lemma hasArrow_trim (cs : List Char) : hasArrow (trim cs) = hasArrow cs := by
  obtain ⟨before, hbefore, hfront⟩ := exists_eq_append_trimLeft cs
  obtain ⟨after, hafter, hback⟩ := exists_eq_trimRight_append (trimLeft cs)
  have hneutral : ∀ b ∈ before, isNeutral b = true :=
    fun b hb => isNeutral_of_isBlank (hbefore b hb)
  have hangle : ∀ b ∈ after, (b == '>') = false := by
    intro b hb
    apply beq_false_of_ne
    rintro rfl
    cases hafter '>' hb
  have hnone : ∀ p, hasArrowFrom p after = false := fun p =>
    hasArrowFrom_eq_false (along_of_forall fun b hb _ _ => hangle b hb)
  conv_rhs => rw [hfront, hasArrow_neutral_append hneutral, hback, hasArrow, hasArrowFrom_append,
    hnone, Bool.or_false]
  rfl

/-! ## Behind a text that closes its brackets -/

section Closed

variable (hxs : depthAfter xs = 0) (hys : ys.head? ≠ some '>')

include hxs hys

lemma depthAfter_append : depthAfter (xs ++ ys) = depthAfter ys := by
  have hdepth : (start.after xs).depth = 0 := hxs
  rw [depthAfter_eq, after_append, after_depth_eq hys, hdepth, Int.zero_add]

lemma along_append_iff : Along P start (xs ++ ys) ↔ Along P start xs ∧ Along P start ys := by
  have hdepth : (start.after xs).depth = 0 := hxs
  rw [along_append, along_iff_start hys, hdepth]
  simp only [Int.add_zero]

lemma hasArrow_append : hasArrow (xs ++ ys) = (hasArrow xs || hasArrow ys) := by
  have hdepth : (start.after xs).depth = 0 := hxs
  rw [hasArrow, hasArrowFrom_append, hasArrowFrom_eq_hasArrow hys hdepth]
  rfl

end Closed

lemma ne_angle_of_isNeutral (hs : isNeutral s = true) (ys : List Char) :
    (s :: ys).head? ≠ some '>' := by
  rintro heq
  cases heq
  cases hs

/-- The depth behind a neutral character at depth zero is counted anew. -/
lemma depthAfter_append_cons (hxs : depthAfter xs = 0) (hs : isNeutral s = true) (ys : List Char) :
    depthAfter (xs ++ s :: ys) = depthAfter ys := by
  rw [depthAfter_append hxs (ne_angle_of_isNeutral hs ys), depthAfter_cons hs]

lemma along_append_cons (hxs : depthAfter xs = 0) (hs : isNeutral s = true) :
    Along P start (xs ++ s :: ys) ↔ Along P start xs ∧ P 0 s ∧ Along P start ys := by
  rw [along_append_iff hxs (ne_angle_of_isNeutral hs ys), along_cons hs]

/-! ## Parts -/

/-- A separator at depth zero cuts a text into what stands before and behind it. -/
theorem split_append_cons (hxs : depthAfter xs = 0) (hsep : sep s = true) (hs : isNeutral s = true)
    (ys : List Char) : split sep (xs ++ s :: ys) = split sep xs ++ split sep ys := by
  have hfrom : ∀ p : Place, (p.after xs).depth = 0 →
      splitFrom sep p (xs ++ s :: ys) = splitFrom sep p xs ++ split sep ys := by
    clear hxs
    induction xs with
    | nil =>
      intro p hp
      have hdepth : p.depth = 0 := hp
      rw [List.nil_append, splitFrom_cons hdepth hsep, (isFresh_next hdepth hs).splitFrom_eq]
      rfl
    | cons x xs ih =>
      intro p hp
      obtain ⟨piece, pieces, hpieces⟩ :=
        List.exists_cons_of_ne_nil (splitFrom_ne_nil sep (p.next x) xs)
      rw [List.cons_append, splitFrom, splitFrom, ih _ hp, hpieces]
      split <;> rfl
  exact hfrom start hxs

/-- The parts of a text between separators at depth zero, blank ones left out. -/
def parts (sep : Char → Bool) (cs : List Char) : List (List Char) :=
  ((split sep cs).map trim).filter (· ≠ [])

@[simp] lemma parts_nil : parts sep [] = [] := rfl

lemma isTrimmed_of_mem_parts {part : List Char} (h : part ∈ parts sep cs) : IsTrimmed part := by
  obtain ⟨hmem, hne⟩ := List.mem_filter.1 h
  obtain ⟨piece, -, rfl⟩ := List.mem_map.1 hmem
  exact isTrimmed_trim (by simpa using hne)

lemma parts_append_cons (hxs : depthAfter xs = 0) (hsep : sep s = true) (hs : isNeutral s = true)
    (ys : List Char) : parts sep (xs ++ s :: ys) = parts sep xs ++ parts sep ys := by
  simp only [parts, split_append_cons hxs hsep hs, List.map_append, List.filter_append]

/-- A text without separators at depth zero is its own only part. -/
lemma parts_eq_singleton (hclean : Clean sep cs) (htrimmed : IsTrimmed cs) :
    parts sep cs = [cs] := by
  have hsplit : split sep cs = [cs] := splitFrom_eq_singleton hclean
  simp [parts, hsplit, htrimmed.trim_eq, htrimmed.ne_nil]

lemma splitFrom_congr {f g : Char → Bool} (h : ∀ c ∈ cs, f c = g c) (p : Place) :
    splitFrom f p cs = splitFrom g p cs := by
  induction cs generalizing p with
  | nil => rfl
  | cons c cs ih =>
    rw [splitFrom, splitFrom, h c List.mem_cons_self,
      ih fun d hd => h d (List.mem_cons_of_mem c hd)]

/-- Separators that are not in a text do not matter. -/
lemma parts_congr {f g : Char → Bool} (h : ∀ c ∈ cs, f c = g c) : parts f cs = parts g cs := by
  rw [parts, parts, split, split, splitFrom_congr h]

/-- The first part starts as the text does. -/
lemma exists_parts_eq_cons (hblank : isBlank c = false) (hsep : sep c = false) (cs : List Char) :
    ∃ tail more, parts sep (c :: cs) = (c :: tail) :: more := by
  obtain ⟨piece, pieces, hsplit⟩ : ∃ piece pieces, split sep (c :: cs) = (c :: piece) :: pieces :=
    exists_splitFrom_cons hsep start cs
  have htrim : trim (c :: piece) = c :: trimRight piece := trim_cons hblank piece
  rw [parts, hsplit, List.map_cons, htrim, List.filter_cons_of_pos (by simp)]
  exact ⟨_, _, rfl⟩

/-! ## Blanks between parts -/

lemma parts_cons_of_isBlank (hb : isBlank b = true) : parts sep (b :: cs) = parts sep cs := by
  have hfresh : (start.next b).IsFresh := isFresh_next rfl (isNeutral_of_isBlank hb)
  obtain ⟨piece, pieces, hpieces⟩ := List.exists_cons_of_ne_nil (splitFrom_ne_nil sep start cs)
  have hcs : split sep cs = piece :: pieces := hpieces
  rw [parts, split, splitFrom, hfresh.splitFrom_eq, parts, hcs]
  split
  · rfl
  · have htrim : trim ([b] ++ piece) = trim piece :=
      trim_append_left (List.forall_mem_singleton.2 hb)
    rw [List.singleton_append] at htrim
    rw [List.map_cons, List.map_cons, htrim]

lemma parts_concat_of_isBlank (hb : isBlank b = true) (hsep : sep b = false) :
    parts sep (cs ++ [b]) = parts sep cs := by
  obtain ⟨front, last, hcs, hboth⟩ : ∃ front last, splitFrom sep start cs = front ++ [last] ∧
      splitFrom sep start (cs ++ [b]) = front ++ [last ++ [b]] :=
    exists_splitFrom_append ⟨fun _ => hsep, trivial⟩
  have htrim : trim (last ++ [b]) = trim last :=
    trim_append_right (List.forall_mem_singleton.2 hb)
  simp only [parts, split, hcs, hboth, List.map_append, List.map_singleton, htrim]

/-- Blanks around a text do not matter for its parts. -/
lemma parts_trim (hsep : ∀ b, isBlank b = true → sep b = false) (cs : List Char) :
    parts sep (trim cs) = parts sep cs := by
  have hleft : ∀ bs : List Char, (∀ b ∈ bs, isBlank b = true) → ∀ ds,
      parts sep (bs ++ ds) = parts sep ds := by
    intro bs hbs ds
    induction bs with
    | nil => rfl
    | cons b bs ih =>
      obtain ⟨hb, hbs⟩ := List.forall_mem_cons.1 hbs
      rw [List.cons_append, parts_cons_of_isBlank hb, ih hbs]
  have hright : ∀ bs : List Char, (∀ b ∈ bs, isBlank b = true) → ∀ ds,
      parts sep (ds ++ bs) = parts sep ds := by
    intro bs hbs
    induction bs with
    | nil => simp
    | cons b bs ih =>
      intro ds
      obtain ⟨hb, hbs⟩ := List.forall_mem_cons.1 hbs
      rw [← List.singleton_append, ← List.append_assoc, ih hbs,
        parts_concat_of_isBlank hb (hsep b hb)]
  obtain ⟨before, hbefore, hfront⟩ := exists_eq_append_trimLeft cs
  obtain ⟨after, hafter, hback⟩ := exists_eq_trimRight_append (trimLeft cs)
  conv_rhs => rw [hfront, hleft before hbefore, hback, hright after hafter]
  rfl

/-- Blanks and separators. -/
def IsBetween (sep : Char → Bool) (gap : List Char) : Prop :=
  ∀ c ∈ gap, isBlank c = true ∨ sep c = true

instance : Decidable (IsBetween sep gap) :=
  decidable_of_iff ((gap.all fun c => isBlank c || sep c) = true) (by simp [IsBetween])

section Gap

variable (hneutral : ∀ c, sep c = true → isNeutral c = true)

include hneutral

lemma IsBetween.neutral (hgap : IsBetween sep gap) : ∀ c ∈ gap, isNeutral c = true := by
  intro c hc
  rcases hgap c hc with hblank | hsep
  · exact isNeutral_of_isBlank hblank
  · exact hneutral c hsep

lemma IsBetween.balanced (hgap : IsBetween sep gap) : Balanced gap :=
  balanced_of_forall fun c hc => isBracket_eq_false_of_isNeutral (hgap.neutral hneutral c hc)

/-- Blanks and separators in front of a text make no parts. -/
lemma parts_gap_append (hgap : IsBetween sep gap) (cs : List Char) :
    parts sep (gap ++ cs) = parts sep cs := by
  induction gap with
  | nil => rfl
  | cons c gap ih =>
    obtain ⟨hc, hrest⟩ := List.forall_mem_cons.1 hgap
    rw [List.cons_append, ← ih hrest]
    rcases hc with hblank | hsep
    · exact parts_cons_of_isBlank hblank
    · have hcut : parts sep ([] ++ c :: (gap ++ cs)) = parts sep [] ++ parts sep (gap ++ cs) :=
        parts_append_cons rfl hsep (hneutral c hsep) (gap ++ cs)
      rw [List.nil_append, parts_nil, List.nil_append] at hcut
      exact hcut

/-- Blanks and separators behind a text make no parts. -/
lemma parts_append_gap (hcs : depthAfter cs = 0) (hgap : IsBetween sep gap) :
    parts sep (cs ++ gap) = parts sep cs := by
  induction gap generalizing cs with
  | nil => simp
  | cons c gap ih =>
    obtain ⟨hc, hgap⟩ := List.forall_mem_cons.1 hgap
    cases hsep : sep c with
    | true =>
      have hnone : parts sep gap = [] := by
        rw [← List.append_nil gap, parts_gap_append hneutral hgap, parts_nil]
      rw [parts_append_cons hcs hsep (hneutral c hsep), hnone, List.append_nil]
    | false =>
      have hblank : isBlank c = true := hc.resolve_right (by simp [hsep])
      have hdepth : depthAfter (cs ++ [c]) = 0 :=
        depthAfter_append_cons hcs (isNeutral_of_isBlank hblank) []
      rw [← List.singleton_append, ← List.append_assoc, ih hdepth hgap,
        parts_concat_of_isBlank hblank hsep]

/-- Blanks and a separator between two texts tell them apart. -/
theorem parts_append_gap_append (hcs : depthAfter cs = 0) (hgap : IsBetween sep gap)
    (hsome : gap.any sep = true) (ys : List Char) :
    parts sep (cs ++ gap ++ ys) = parts sep cs ++ parts sep ys := by
  obtain ⟨s, hmem, hs⟩ := List.any_eq_true.1 hsome
  obtain ⟨front, back, rfl⟩ := List.append_of_mem hmem
  have hfront : IsBetween sep front := fun c hc => hgap c (by simp [hc])
  have hback : IsBetween sep back := fun c hc => hgap c (by simp [hc])
  have hdepth : depthAfter (cs ++ front) = 0 := by
    rw [depthAfter_eq, after_append, (hfront.balanced hneutral).after_depth]
    exact hcs
  have hassoc : cs ++ (front ++ s :: back) ++ ys = (cs ++ front) ++ s :: (back ++ ys) := by simp
  rw [hassoc, parts_append_cons hdepth hs (hneutral s hs), parts_append_gap hneutral hcs hfront,
    parts_gap_append hneutral hback]

/-! ## Texts with gaps between them -/

/-- Texts, each of them behind a gap. -/
def spread (entries : List (List Char × List Char)) : List Char :=
  entries.flatMap fun e => e.1 ++ e.2

/-- The gaps are blanks and separators, and between two texts there is a separator. The texts close
their brackets. -/
structure IsSpread (sep : Char → Bool) (entries : List (List Char × List Char)) : Prop where
  gaps : ∀ e ∈ entries, IsBetween sep e.1
  apart : ∀ e ∈ entries.tail, e.1.any sep = true
  closed : ∀ e ∈ entries, depthAfter e.2 = 0

variable {e : List Char × List Char} {entries : List (List Char × List Char)}

omit hneutral in
lemma spread_cons (e : List Char × List Char) (entries : List (List Char × List Char)) :
    spread (e :: entries) = e.1 ++ (e.2 ++ spread entries) := by
  simp [spread]

omit hneutral in
lemma IsSpread.tail (h : IsSpread sep (e :: entries)) : IsSpread sep entries :=
  ⟨fun a ha => h.gaps a (List.mem_cons_of_mem e ha),
    fun a ha => h.apart a (List.mem_of_mem_tail ha),
    fun a ha => h.closed a (List.mem_cons_of_mem e ha)⟩

lemma IsSpread.neutral (h : IsSpread sep (e :: entries)) : ∀ c ∈ e.1, isNeutral c = true :=
  (h.gaps e List.mem_cons_self).neutral hneutral

/-- Behind a text there is a gap, or nothing. -/
lemma IsSpread.head?_ne (h : IsSpread sep (e :: entries)) : (spread entries).head? ≠ some '>' := by
  cases entries with
  | nil => simp [spread]
  | cons next entries =>
    obtain ⟨s, hs, -⟩ := List.any_eq_true.1 (h.apart next List.mem_cons_self)
    obtain ⟨c, rest, hcons⟩ := List.exists_cons_of_ne_nil (List.ne_nil_of_mem hs)
    have hc : isNeutral c = true := h.tail.neutral hneutral c (hcons ▸ List.mem_cons_self)
    rw [spread_cons, hcons, List.cons_append]
    exact ne_angle_of_isNeutral hc _

theorem depthAfter_spread (h : IsSpread sep entries) : depthAfter (spread entries) = 0 := by
  induction entries with
  | nil => rfl
  | cons e entries ih =>
    rw [spread_cons, depthAfter_neutral_append (h.neutral hneutral),
      depthAfter_append (h.closed e List.mem_cons_self) (h.head?_ne hneutral), ih h.tail]

/-- What holds along texts with gaps between them holds at depth zero in the gaps, and along each
text from its start. -/
theorem along_spread (h : IsSpread sep entries) :
    Along P start (spread entries) ↔
      ∀ e ∈ entries, (∀ c ∈ e.1, P 0 c) ∧ Along P start e.2 := by
  induction entries with
  | nil => simp [spread, Along]
  | cons e entries ih =>
    rw [spread_cons, along_neutral_append (h.neutral hneutral),
      along_append_iff (h.closed e List.mem_cons_self) (h.head?_ne hneutral), ih h.tail,
      List.forall_mem_cons, and_assoc]

theorem hasArrow_spread (h : IsSpread sep entries) :
    hasArrow (spread entries) = entries.any fun e => hasArrow e.2 := by
  induction entries with
  | nil => rfl
  | cons e entries ih =>
    rw [spread_cons, hasArrow_neutral_append (h.neutral hneutral),
      hasArrow_append (h.closed e List.mem_cons_self) (h.head?_ne hneutral), ih h.tail,
      List.any_cons]

theorem parts_spread (h : IsSpread sep entries) :
    parts sep (spread entries) = entries.flatMap fun e => parts sep e.2 := by
  induction entries with
  | nil => rfl
  | cons e entries ih =>
    have hrest := ih h.tail
    rw [spread_cons, parts_gap_append hneutral (h.gaps e List.mem_cons_self), List.flatMap_cons,
      ← hrest]
    cases entries with
    | nil => simp [spread]
    | cons next entries =>
      have hgap := h.tail.gaps next List.mem_cons_self
      rw [spread_cons, ← List.append_assoc, parts_append_gap_append hneutral
        (h.closed e List.mem_cons_self) hgap (h.apart next List.mem_cons_self),
        parts_gap_append hneutral hgap]

end Gap

end StyleGuide.Bracket
