import Mathlib.Tactic.Common
import StyleGuide.Glob.Reader
import StyleGuide.Proofs.Sequence
import StyleGuide.Proofs.Text.Cut

/-!
# Which texts are globs

Whether a text is a glob, and why not, depends on its classes, escapes and choices alone: what a
`**` stands for has no part in it, nor have the tokens that were read before. A text that is a glob
can be taken away from the front of another text without changing what is said about the rest, so a
glob can be cut at a separator just where the separator stands in no class, in no choice and behind
no backslash.

## Main definitions

* `Glob.verdict`: what is said about a text, where some choices are open.
* `Error.IsUnfinished`: the errors of a text that breaks off inside a class, a choice or an escape.

## Main results

* `Glob.map_readTokens`: the verdict is that of the reader.
* `Glob.verdict_append`: a glob in front of a text can be taken away.
* `Glob.verdict_segments_iff`: where all segments of a glob are globs.
-/

namespace StyleGuide.Glob

/-- What is said about a text where `depth` choices are open: nothing against it, or the first
error. -/
def verdict (depth : Nat) : List Char → Except Error Unit
  | [] => if depth = 0 then .ok () else .error .unclosedChoice
  | '\\' :: rest =>
    match rest with
    | [] => .error .danglingEscape
    | _ :: rest => verdict depth rest
  | '[' :: rest =>
    match _h : readClass rest with
    | .error e => .error e
    | .ok (_, after) =>
      have := readClass_length _h
      verdict depth after
  | '\x7b' :: rest => verdict (depth + 1) rest
  | '\x7d' :: rest =>
    match depth with
    | 0 => .error .unopenedChoice
    | depth + 1 => verdict depth rest
  | _ :: rest => verdict depth rest
termination_by cs => cs.length
decreasing_by all_goals simp only [List.length_cons]; omega

variable {depth : Nat} {cs front back rest : List Char} {e : Error}

@[simp] lemma verdict_nil : verdict 0 [] = .ok () := by
  rw [verdict, if_pos rfl]

@[simp] lemma verdict_escape (c : Char) :
    verdict depth ('\\' :: c :: rest) = verdict depth rest := by
  rw [verdict]

@[simp] lemma verdict_open : verdict depth ('\x7b' :: rest) = verdict (depth + 1) rest := by
  rw [verdict]

@[simp] lemma verdict_close : verdict (depth + 1) ('\x7d' :: rest) = verdict depth rest := by
  rw [verdict]

@[simp] lemma verdict_unopened : verdict 0 ('\x7d' :: rest) = .error .unopenedChoice := by
  rw [verdict]

lemma verdict_class {t : Token} (h : readClass cs = .ok (t, rest)) :
    verdict depth ('[' :: cs) = verdict depth rest := by
  rw [verdict]
  split
  · simp_all
  next h' =>
    rw [h] at h'
    cases h'
    rfl

lemma verdict_class_error (h : readClass cs = .error e) : verdict depth ('[' :: cs) = .error e := by
  rw [verdict]
  split <;> simp_all

lemma verdict_plain {c : Char} (hescape : c ≠ '\\') (hclass : c ≠ '[') (hopen : c ≠ '\x7b')
    (hclose : c ≠ '\x7d') : verdict depth (c :: rest) = verdict depth rest := by
  rw [verdict]
  all_goals simp_all

@[simp] lemma verdict_slash : verdict depth ('/' :: rest) = verdict depth rest :=
  verdict_plain (by decide) (by decide) (by decide) (by decide)

/-! ## The verdict of the reader -/

/-- A `**` opens no choice, and what it takes besides is a separator. -/
lemma verdict_readDoubleStar (depth : Nat) (before : Option Char) (d : Draft) (cs : List Char) :
    (readDoubleStar before d cs).1.choices = d.choices ∧
      verdict depth (readDoubleStar before d cs).2.2 = verdict depth cs := by
  have habsorb : ∀ t, (d.absorb t).choices = d.choices := by
    intro t
    unfold Draft.absorb
    split <;> rfl
  unfold readDoubleStar
  simp only
  repeat' split
  all_goals simp [Draft.push, habsorb]

/-- The verdict is that of the reader, whatever tokens stand before. -/
theorem map_readTokens (before : Option Char) (d : Draft) (cs : List Char) :
    (readTokens before d cs).map (fun _ => ()) = verdict d.choices.length cs := by
  fun_induction readTokens before d cs with
  | case1 before d =>
    rw [verdict, Draft.finish]
    cases d.choices <;> rfl
  | case2 before d rest r hlength ih =>
    obtain ⟨hchoices, hverdict⟩ := verdict_readDoubleStar d.choices.length before d rest
    rw [ih, hchoices, hverdict, verdict_plain (by decide) (by decide) (by decide) (by decide),
      verdict_plain (by decide) (by decide) (by decide) (by decide)]
  | case3 => rw [verdict]; rfl
  | case4 before d c rest ih => rw [ih, verdict_escape]; rfl
  | case5 before d rest e hread => rw [verdict_class_error hread]; rfl
  | case6 before d rest t after hread hlength ih => rw [ih, verdict_class hread]; rfl
  | case9 before d rest _ _ _ _ _ ih => rw [ih, verdict_open]; rfl
  | case10 before d rest _ _ _ _ _ _ ih =>
    rw [ih, verdict_plain (by decide) (by decide) (by decide) (by decide), Draft.nextBranch]
    cases hchoices : d.choices <;> simp [Draft.push, hchoices]
  | case11 before d rest e hclose =>
    unfold Draft.closeChoice at hclose
    split at hclose
    next hchoices =>
      cases hclose
      rw [hchoices, List.length_nil, verdict_unopened]
      rfl
    · cases hclose
  | case12 before d rest d' hclose _ _ _ _ _ _ _ ih =>
    unfold Draft.closeChoice at hclose
    split at hclose
    · cases hclose
    next hchoices =>
      cases hclose
      rw [ih, hchoices, List.length_cons, verdict_close]
  | _ => simp_all [Draft.push, verdict_plain]

/-- A text is a glob where the verdict has nothing against it, and is refused for what the verdict
says. -/
theorem parse_iff (cs : List Char) :
    ((∃ g, parse cs = .ok g) ↔ verdict 0 cs = .ok ()) ∧
      ∀ e, parse cs = .error e ↔ verdict 0 cs = .error e := by
  have hverdict := map_readTokens none ⟨[], []⟩ cs
  rw [List.length_nil, ← parse] at hverdict
  rw [← hverdict]
  cases parse cs <;> simp [Except.map]

/-! ## More text behind -/

/-- The errors of a text that breaks off inside a class, a choice or an escape. -/
def Error.IsUnfinished : Error → Prop
  | unclosedClass | unclosedChoice | danglingEscape => True
  | invalidRange _ _ | unopenedChoice => False

/-- A class that is not at its end is read on, and what stands behind a class is left. -/
lemma readRanges_append (started pending : Bool) (done : List (Char × Char)) (cs more : List Char) :
    readRanges started pending done cs = .error .unclosedClass ∨
      readRanges started pending done (cs ++ more) =
        (readRanges started pending done cs).map fun r => (r.1, r.2 ++ more) := by
  induction cs generalizing started pending done with
  | nil => exact .inl rfl
  | cons c cs ih =>
    rw [List.cons_append, readRanges, readRanges]
    split
    · exact .inr rfl
    · split
      · exact ih _ _ _
      · split
        · split
          · exact .inr rfl
          · exact ih _ _ _
        · exact ih _ _ _

lemma readClass_append (cs more : List Char) :
    readClass cs = .error .unclosedClass ∨
      readClass (cs ++ more) = (readClass cs).map fun r => (r.1, r.2 ++ more) := by
  cases cs with
  | nil => exact .inl rfl
  | cons c cs =>
    have hhead : (c :: cs ++ more).head? = (c :: cs).head? := rfl
    have hrest : ∀ negated : Prop, ∀ [Decidable negated],
        (if negated then (c :: cs ++ more).tail else c :: cs ++ more) =
          (if negated then (c :: cs).tail else c :: cs) ++ more := by
      intro negated _
      split <;> rfl
    unfold readClass
    simp only [hhead, hrest]
    rcases readRanges_append false false []
      (if (c :: cs).head? = some '!' ∨ (c :: cs).head? = some '^' then (c :: cs).tail else c :: cs)
      more with h | h
    · left
      rw [h]
    · right
      rw [h]
      cases readRanges false false [] (if (c :: cs).head? = some '!' ∨ (c :: cs).head? = some '^'
        then (c :: cs).tail else c :: cs) <;> rfl

/-- A text that does not break off can be taken away from the front: it is refused for what it is
refused for alone, and otherwise the verdict is that on the rest. -/
theorem verdict_append (depth : Nat) (front back : List Char) :
    (∃ e : Error, e.IsUnfinished ∧ verdict depth front = .error e) ∨
      verdict depth (front ++ back) = verdict depth front >>= fun _ => verdict 0 back := by
  fun_induction verdict depth front with
  | case1 => right; rfl
  | case2 => exact .inl ⟨.unclosedChoice, trivial, rfl⟩
  | case3 => exact .inl ⟨.danglingEscape, trivial, rfl⟩
  | case4 depth c rest ih => simpa using ih
  | case5 depth rest e hread =>
    rcases readClass_append rest back with h | h
    · cases hread.symm.trans h
      exact .inl ⟨.unclosedClass, trivial, rfl⟩
    · right
      rw [List.cons_append, verdict_class_error (by rw [h, hread]; rfl)]
      rfl
  | case6 depth rest t after hread hlength ih =>
    rcases readClass_append rest back with h | h
    · rw [hread] at h
      cases h
    · rwa [List.cons_append, verdict_class (by rw [h, hread]; rfl)]
  | case7 depth rest ih => simpa using ih
  | case8 rest =>
    right
    rw [List.cons_append, verdict_unopened]
    rfl
  | case9 rest depth ih => simpa using ih
  | case10 depth c rest hescape hclass hopen hclose ih =>
    rwa [List.cons_append, verdict_plain hescape hclass hopen hclose]

/-- A glob in front of a separator can be taken away together with it. -/
lemma verdict_append_slash (h : verdict 0 front = .ok ()) (back : List Char) :
    verdict 0 (front ++ '/' :: back) = verdict 0 back := by
  rcases verdict_append 0 front ('/' :: back) with ⟨e, -, he⟩ | happend
  · rw [h] at he
    cases he
  · have hslash : verdict 0 ('/' :: back) = verdict 0 back := verdict_slash
    rw [happend, h, ← hslash]
    rfl

/-- The front of a glob is a glob, or it breaks off. -/
lemma isUnfinished_of_verdict_append (h : verdict 0 (front ++ back) = .ok ())
    (he : verdict 0 front = .error e) : e.IsUnfinished := by
  rcases verdict_append 0 front back with ⟨e', hunfinished, he'⟩ | happend
  · rw [he] at he'
    cases he'
    exact hunfinished
  · rw [he, h] at happend
    cases happend

/-- All segments of a glob are globs just where it can be cut in front of each separator. -/
theorem verdict_segments_iff {text : List Char} (h : verdict 0 text = .ok ()) :
    (∀ s ∈ cut (· == '/') text, verdict 0 s = .ok ()) ↔
      ∀ front back, text = front ++ '/' :: back → verdict 0 front = .ok () := by
  induction hn : text.length using Nat.strongRecOn generalizing text with
  | ind n ih =>
    subst hn
    by_cases hslash : '/' ∈ text
    · obtain ⟨s, behind, rfl, hs⟩ := List.eq_append_cons_of_mem hslash
      have hsingle : cut (· == '/') s = [s] :=
        cut_eq_singleton fun c hc => beq_false_of_ne (ne_of_mem_of_not_mem hc hs)
      rw [cut_append_cons _ _ rfl, hsingle, List.singleton_append, List.forall_mem_cons]
      -- The rest is a glob as soon as the first segment is one, and then its own fronts count.
      have hrest : verdict 0 s = .ok () →
          ((∀ t ∈ cut (· == '/') behind, verdict 0 t = .ok ()) ↔
            ∀ front back, behind = front ++ '/' :: back → verdict 0 front = .ok ()) := by
        intro hfirst
        rw [verdict_append_slash hfirst] at h
        exact ih behind.length (by simp; omega) h rfl
      constructor
      · rintro ⟨hfirst, hall⟩ front back heq
        rcases List.append_eq_append_iff.1 heq with ⟨more, rfl, hmore⟩ | ⟨more, rfl, hmore⟩
        · cases more with
          | nil => simpa using hfirst
          | cons c more =>
            obtain ⟨rfl, rfl⟩ := List.cons.inj hmore
            rw [verdict_append_slash hfirst]
            exact (hrest hfirst).1 hall more back rfl
        · cases more with
          | nil => simpa using hfirst
          | cons c more =>
            obtain ⟨rfl, -⟩ := List.cons.inj hmore
            exact absurd (by simp) hs
      · intro hfronts
        have hfirst : verdict 0 s = .ok () := hfronts s behind rfl
        refine ⟨hfirst, (hrest hfirst).2 fun front back heq => ?_⟩
        have hfront := hfronts (s ++ '/' :: front) back (by simp [heq])
        rwa [verdict_append_slash hfirst] at hfront
    · have hsingle : cut (· == '/') text = [text] :=
        cut_eq_singleton fun c hc => beq_false_of_ne (ne_of_mem_of_not_mem hc hslash)
      rw [hsingle]
      refine iff_of_true (List.forall_mem_singleton.2 h) ?_
      rintro front back rfl
      exact absurd (by simp) hslash

end StyleGuide.Glob
