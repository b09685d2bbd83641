import StyleGuide.Glob.Basic

/-!
# Reading globs

`Glob.parse` reads the tokens of a text. A backslash takes the next character literally. `**` is a
token of its own only as a whole segment; elsewhere it is two stars. In a choice a segment also
starts behind `{` and `,` and ends before `,` and `}`.
-/

namespace StyleGuide.Glob

/-- Extend the latest range of a class, given last first, up to `c`. -/
def extendRange (c : Char) : List (Char × Char) → Except Error (List (Char × Char))
  | [] => .ok [(c, c)]
  | (a, _) :: rest => if c < a then .error (.invalidRange a c) else .ok ((a, c) :: rest)

/-- Read the rest of a class. `started` says whether an item stands before, where `]` and `-` are
plain; `pending` says that a `-` waits for the end of its range. -/
def readRanges (started pending : Bool) (done : List (Char × Char)) :
    List Char → Except Error (List (Char × Char) × List Char)
  | [] => .error .unclosedClass
  | c :: rest =>
    if c = ']' ∧ started = true then
      .ok ((if pending then ('-', '-') :: done else done).reverse, rest)
    else if c = '-' ∧ started = true ∧ pending = false then
      readRanges true true done rest
    else if pending then
      match extendRange c done with
      | .error e => .error e
      | .ok done => readRanges true false done rest
    else
      readRanges true false ((c, c) :: done) rest

theorem readRanges_length {started pending : Bool} {done ranges : List (Char × Char)}
    {cs rest : List Char} (h : readRanges started pending done cs = .ok (ranges, rest)) :
    rest.length < cs.length := by
  induction cs generalizing started pending done with
  | nil => simp [readRanges] at h
  | cons c cs ih =>
    rw [readRanges] at h
    split at h
    · cases h
      simp
    · split at h
      · exact Nat.lt_succ_of_lt (ih h)
      · split at h
        · split at h
          · cases h
          · exact Nat.lt_succ_of_lt (ih h)
        · exact Nat.lt_succ_of_lt (ih h)

/-- Read a class behind its bracket. -/
def readClass (cs : List Char) : Except Error (Token × List Char) :=
  let negated := cs.head? = some '!' ∨ cs.head? = some '^'
  match readRanges false false [] (if negated then cs.tail else cs) with
  | .error e => .error e
  | .ok (ranges, rest) => .ok (.oneOf (decide negated) ranges, rest)

theorem readClass_length {cs rest : List Char} {t : Token} (h : readClass cs = .ok (t, rest)) :
    rest.length < cs.length := by
  unfold readClass at h
  simp only at h
  split at h
  · cases h
  next hr =>
    cases h
    have := readRanges_length hr
    split at this
    · exact Nat.lt_of_lt_of_le this (by simp)
    · exact this

/-- A choice that is being read. -/
structure OpenChoice where
  /-- The finished branches, last first. -/
  done : List (List Token)
  /-- The tokens before the choice, last first. -/
  before : List Token

/-- What has been read so far. -/
structure Draft where
  /-- The tokens of the present branch, last first. -/
  tokens : List Token
  /-- The choices around the present branch, innermost first. -/
  choices : List OpenChoice

namespace Draft

/-- One more token. -/
def push (d : Draft) (t : Token) : Draft := { d with tokens := t :: d.tokens }

/-- `{` -/
def openChoice (d : Draft) : Draft := ⟨[], ⟨[], d.tokens⟩ :: d.choices⟩

/-- `,` -/
def nextBranch (d : Draft) : Draft :=
  match d.choices with
  | [] => d.push (.literal ',')
  | c :: outer => ⟨[], { c with done := d.tokens.reverse :: c.done } :: outer⟩

/-- `}` -/
def closeChoice (d : Draft) : Except Error Draft :=
  match d.choices with
  | [] => .error .unopenedChoice
  | c :: outer =>
    .ok ⟨.choice (d.tokens.reverse :: c.done).reverse :: c.before, outer⟩

/-- The glob, once nothing is left to read. -/
def finish (d : Draft) : Except Error Glob :=
  if d.choices.isEmpty then .ok d.tokens.reverse else .error .unclosedChoice

/-- Replace the last token, which stands for the separator before `**`. A `**` that is already
there absorbs the new one. -/
def absorb (d : Draft) (t : Token) : Draft :=
  match d.tokens with
  | .leadingDirs :: _ => d
  | .everythingBelow :: _ => d
  | tokens => { d with tokens := t :: tokens.tail }

end Draft

/-- Read `**`, given the character before it and the text behind it: the draft, the character
that was read last, and the rest. -/
def readDoubleStar (before : Option Char) (d : Draft) (cs : List Char) :
    Draft × Char × List Char :=
  let twoStars := ((d.push .star).push .star, '*', cs)
  let inChoice := !d.choices.isEmpty
  if d.tokens.isEmpty then
    match cs with
    | [] => (d.push .leadingDirs, '*', [])
    | '/' :: rest => (d.push .leadingDirs, '/', rest)
    | _ => twoStars
  else if before = some '/' ∨ (inChoice = true ∧ (before = some ',' ∨ before = some '{')) then
    match cs with
    | [] => (d.absorb .everythingBelow, '*', [])
    | '/' :: rest => (d.absorb .innerDirs, '/', rest)
    | c :: _ =>
      if inChoice = true ∧ (c = ',' ∨ c = '\x7d') then (d.absorb .everythingBelow, '*', cs)
      else twoStars
  else twoStars

theorem readDoubleStar_length (before : Option Char) (d : Draft) (cs : List Char) :
    (readDoubleStar before d cs).2.2.length ≤ cs.length := by
  unfold readDoubleStar
  simp only
  repeat' split
  all_goals simp

/-- Read tokens to the end of the text. -/
def readTokens (before : Option Char) (d : Draft) : List Char → Except Error Glob
  | [] => d.finish
  | '*' :: '*' :: rest =>
    let r := readDoubleStar before d rest
    have := readDoubleStar_length before d rest
    readTokens (some r.2.1) r.1 r.2.2
  | '\\' :: rest =>
    match rest with
    | [] => .error .danglingEscape
    | c :: rest => readTokens (some c) (d.push (.literal c)) rest
  | '[' :: rest =>
    match _h : readClass rest with
    | .error e => .error e
    | .ok (t, after) =>
      have := readClass_length _h
      readTokens (some ']') (d.push t) after
  | c :: rest =>
    if c = '?' then readTokens (some c) (d.push .any) rest
    else if c = '*' then readTokens (some c) (d.push .star) rest
    else if c = '{' then readTokens (some c) d.openChoice rest
    else if c = ',' then readTokens (some c) d.nextBranch rest
    else if c = '}' then
      match d.closeChoice with
      | .error e => .error e
      | .ok d => readTokens (some c) d rest
    else readTokens (some c) (d.push (.literal c)) rest
termination_by cs => cs.length
decreasing_by all_goals simp only [List.length_cons]; omega

/-- The glob that a text stands for. -/
def parse (cs : List Char) : Except Error Glob := readTokens none ⟨[], []⟩ cs

end StyleGuide.Glob
