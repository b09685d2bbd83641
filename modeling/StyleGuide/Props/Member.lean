import StyleGuide.Props.Bracket
import StyleGuide.Text.Blank
import StyleGuide.Text.Word

/-!
# Members of an interface

The body of an interface is a list of members, each with a name and the text of a type. A member
ends at a `;`, a `,` or a line break outside of brackets; a line that starts with `|` or `&` goes on
with the line above. Comments on lines of their own belong to the member behind them.

## Main definitions

* `Member.Piece`, `Member.pieces`: the comments and declarations of a body.
* `Member.readDeclaration?`: the parts of one declaration.
* `Member.readAll`: the members of a body, or the first text that is no declaration.
-/

namespace StyleGuide

/-- A member of an interface. -/
structure Member where
  name : List Char
  isOptional : Bool
  /-- The text of its type. -/
  type : List Char
  /-- The comments before it. -/
  comments : List (List Char)

namespace Member

/-! ## Pieces -/

/-- Leave out the marks at the end of a comment, which is given from its end. -/
def dropMarks : List Char → List Char
  | '/' :: '*' :: rest => dropMarks rest
  | cs => cs

/-- The text of a line that is a comment or goes on with one. -/
def commentText? (line : List Char) : Option (List Char) :=
  if "//".toList.isPrefixOf line ∨ "/*".toList.isPrefixOf line ∨ "*".toList.isPrefixOf line then
    let body := line.dropWhile fun c => c = '/' || c = '*'
    some (trim (dropMarks body.reverse).reverse)
  else none

/-- Whether a line goes on with the type on the line above. -/
def isContinuation (line : List Char) : Bool :=
  line.head? == some '|' || line.head? == some '&'

/-- Add a line to those before it, last first. -/
def addLine (done : List (List Char)) (line : List Char) : List (List Char) :=
  match done with
  | [] => [line]
  | above :: others =>
    if isContinuation line = true ∧ commentText? above = none then
      (above ++ '\n' :: line) :: others
    else line :: above :: others

/-- The lines of a body, trimmed, those that go on with another one joined to it. -/
def joinedLines (body : List Char) : List (List Char) :=
  let lines := ((cut (· == '\n') body).map trim).filter (· ≠ [])
  (lines.foldl addLine []).reverse

/-- A part of a body. -/
inductive Piece where
  | comment (text : List Char)
  | declaration (text : List Char)
deriving DecidableEq

/-- The declarations on lines that belong together; a comment behind one is left out. -/
def declarationsOf (lines : List Char) : List (List Char) :=
  ((Bracket.split (fun c => c = ';' || c = ',') lines).map trim).filter fun s =>
    s ≠ [] && (commentText? s).isNone

/-- The lines in the buffer with one more behind them. -/
def glue (buffer line : List Char) : List Char :=
  if buffer = [] then line else buffer ++ '\n' :: line

/-- The text of a comment that does not stand inside a declaration. -/
def ownComment? (buffer line : List Char) : Option (List Char) :=
  if buffer = [] then commentText? line else none

/-- Group lines into pieces, where `buffer` holds lines with a bracket that is still open. -/
def group (buffer : List Char) : List (List Char) → List Piece
  | [] => if trim buffer = [] then [] else [.declaration (trim buffer)]
  | line :: rest =>
    match ownComment? buffer line with
    | some text => if text = [] then group [] rest else .comment text :: group [] rest
    | none =>
      if 0 < Bracket.depthAfter (glue buffer line) then group (glue buffer line) rest
      else (declarationsOf (glue buffer line)).map .declaration ++ group [] rest

/-- The comments and declarations of a body. -/
def pieces (body : List Char) : List Piece := group [] (joinedLines body)

/-! ## Declarations -/

/-- The rest behind a word and the blanks that follow it, of which there is at least one. -/
def behindWord? (w : List Char) (cs : List Char) : Option (List Char) :=
  if w.isPrefixOf cs ∧ (cs.drop w.length).head?.any isBlank then
    some (trimLeft (cs.drop w.length))
  else none

/-- Whether a character can start a name. -/
def startsName (c : Char) : Bool := c.isAlpha || c = '_' || c = '$'

/-- Whether a character can go on with a name. -/
def continuesName (c : Char) : Bool := isWord c || c = '$'

/-- The text of a type, without a separator at its end. -/
def typeText (cs : List Char) : List Char :=
  let whole := trimRight cs
  if whole.getLast?.any fun c => c = ';' || c = ',' then
    let shorter := trimRight whole.dropLast
    if shorter = [] then whole else shorter
  else whole

/-- The name, the optional mark and the type of a declaration without modifiers. -/
def readPlain? : List Char → Option (List Char × Bool × List Char)
  | [] => none
  | c :: rest =>
    if startsName c then
      let tail := rest.takeWhile continuesName
      let rest := rest.dropWhile continuesName
      let isOptional := rest.head? == some '?'
      match trimLeft (if isOptional then rest.drop 1 else rest) with
      | ':' :: rest =>
        let type := trimLeft rest
        if type = [] then none else some (c :: tail, isOptional, typeText type)
      | _ => none
    else none

/-- The name, the optional mark and the type of a declaration. -/
def readDeclaration? (cs : List Char) : Option (List Char × Bool × List Char) :=
  match behindWord? "readonly".toList cs with
  | none => readPlain? cs
  | some rest => (readPlain? rest).or (readPlain? cs)

/-- The members that pieces stand for. `comments` are those in front. -/
def ofPieces (comments : List (List Char)) : List Piece → Except (List Char) (List Member)
  | [] => .ok []
  | .comment text :: rest => ofPieces (comments ++ [text]) rest
  | .declaration text :: rest =>
    match readDeclaration? text with
    | none => .error text
    | some (name, isOptional, type) =>
      (ofPieces [] rest).map (⟨name, isOptional, type, comments⟩ :: ·)

/-- The members of a body, or the first text that is no declaration. -/
def readAll (body : List Char) : Except (List Char) (List Member) := ofPieces [] (pieces body)

/-! ## Lengths -/

theorem weight_addLine (done : List (List Char)) (line : List Char) :
    weight (addLine done line) = weight (line :: done) := by
  cases done with
  | nil => rfl
  | cons above others =>
    simp only [addLine]
    split
    · simp only [weight_cons, List.length_append, List.length_cons]
      omega
    · rfl

theorem weight_foldl_addLine (lines done : List (List Char)) :
    weight (lines.foldl addLine done) = weight done + weight lines := by
  induction lines generalizing done with
  | nil => simp
  | cons line lines ih =>
    rw [List.foldl_cons, ih, weight_addLine, weight_cons, weight_cons]
    omega

theorem weight_reverse (ps : List (List Char)) : weight ps.reverse = weight ps := by
  induction ps with
  | nil => rfl
  | cons s ps ih =>
    rw [List.reverse_cons, weight_append, ih, weight_cons, weight_cons, weight_nil]
    omega

theorem weight_joinedLines (body : List Char) : weight (joinedLines body) ≤ body.length + 1 := by
  unfold joinedLines
  simp only
  rw [weight_reverse, weight_foldl_addLine, weight_nil, Nat.zero_add]
  exact Nat.le_trans (weight_filter_le _ _)
    (Nat.le_trans (weight_map_le trim_length _) (Nat.le_of_eq (weight_cut _ _)))

theorem length_of_mem_declarationsOf {lines s : List Char} (h : s ∈ declarationsOf lines) :
    s.length ≤ lines.length := by
  unfold declarationsOf at h
  obtain ⟨t, ht, rfl⟩ := List.mem_map.1 (List.mem_filter.1 h).1
  have h₁ := length_add_length_le_weight ht
  rw [Bracket.weight_split] at h₁
  have h₂ := trim_length t
  have h₃ : 0 < (Bracket.split (fun c => decide (c = ';') || decide (c = ',')) lines).length :=
    List.length_pos_of_mem ht
  omega

/-- The room that the lines in the buffer take. -/
def bufferWeight (buffer : List Char) : Nat := if buffer = [] then 0 else buffer.length + 1

theorem glue_length (buffer line : List Char) :
    (glue buffer line).length + 1 = bufferWeight buffer + (line.length + 1) := by
  unfold glue bufferWeight
  split
  · omega
  · simp only [List.length_append, List.length_cons]
    omega

theorem bufferWeight_le (buffer : List Char) : bufferWeight buffer ≤ buffer.length + 1 := by
  unfold bufferWeight
  split <;> omega

theorem length_of_mem_group {buffer : List Char} {lines : List (List Char)} {s : List Char}
    (h : Piece.declaration s ∈ group buffer lines) :
    s.length + 1 ≤ bufferWeight buffer + weight lines := by
  induction lines generalizing buffer with
  | nil =>
    rw [group] at h
    split at h
    · cases h
    next hb =>
      cases List.mem_singleton.1 h
      have hb' : buffer ≠ [] := fun he => hb (by rw [he]; rfl)
      rw [bufferWeight, if_neg hb', weight_nil]
      have := trim_length buffer
      omega
  | cons line rest ih =>
    have hg := glue_length buffer line
    have hempty : bufferWeight [] = 0 := rfl
    rw [group] at h
    rw [weight_cons]
    split at h
    · split at h
      · have := ih h
        omega
      · rcases List.mem_cons.1 h with h | h
        · cases h
        · have := ih h
          omega
    · split at h
      · have h₁ := ih h
        have h₂ := bufferWeight_le (glue buffer line)
        omega
      · rcases List.mem_append.1 h with h | h
        · obtain ⟨t, ht, hts⟩ := List.mem_map.1 h
          cases hts
          have := length_of_mem_declarationsOf ht
          omega
        · have := ih h
          omega

theorem length_of_mem_pieces {body s : List Char} (h : Piece.declaration s ∈ pieces body) :
    s.length ≤ body.length := by
  have h₁ := length_of_mem_group h
  have h₂ := weight_joinedLines body
  have hempty : bufferWeight [] = 0 := rfl
  omega

theorem typeText_length (cs : List Char) : (typeText cs).length ≤ cs.length := by
  have h := trimRight_length cs
  have h' := trimRight_length (trimRight cs).dropLast
  rw [List.length_dropLast] at h'
  unfold typeText
  simp only
  split
  · split <;> omega
  · exact h

theorem readPlain?_length {cs name type : List Char} {isOptional : Bool}
    (h : readPlain? cs = some (name, isOptional, type)) : type.length < cs.length := by
  cases cs with
  | nil => cases h
  | cons c rest =>
    rw [readPlain?] at h
    split at h
    · simp only at h
      split at h
      next after heq =>
        split at h
        · cases h
        · cases h
          have h₁ := typeText_length (trimLeft after)
          have h₂ := trimLeft_length after
          have h₃ : (':' :: after).length ≤ (rest.dropWhile continuesName).length := by
            rw [← heq]
            refine Nat.le_trans (trimLeft_length _) ?_
            split
            · rw [List.length_drop]
              omega
            · exact Nat.le_refl _
          have h₄ : (rest.dropWhile continuesName).length ≤ rest.length :=
            (List.dropWhile_sublist _).length_le
          simp only [List.length_cons] at h₃ ⊢
          omega
      · cases h
    · cases h

theorem behindWord?_length {w cs rest : List Char} (h : behindWord? w cs = some rest) :
    rest.length ≤ cs.length := by
  unfold behindWord? at h
  split at h
  · cases h
    refine Nat.le_trans (trimLeft_length _) ?_
    rw [List.length_drop]
    omega
  · cases h

theorem readDeclaration?_length {cs name type : List Char} {isOptional : Bool}
    (h : readDeclaration? cs = some (name, isOptional, type)) : type.length < cs.length := by
  unfold readDeclaration? at h
  split at h
  · exact readPlain?_length h
  next rest hrest =>
    rcases Option.or_eq_some_iff.1 h with h | ⟨_, h⟩
    · exact Nat.lt_of_lt_of_le (readPlain?_length h) (behindWord?_length hrest)
    · exact readPlain?_length h

theorem exists_declaration_of_mem_ofPieces {comments : List (List Char)} {ps : List Piece}
    {ms : List Member} (h : ofPieces comments ps = .ok ms) {m : Member} (hm : m ∈ ms) :
    ∃ text, Piece.declaration text ∈ ps ∧
      readDeclaration? text = some (m.name, m.isOptional, m.type) := by
  induction ps generalizing comments ms with
  | nil =>
    cases h
    cases hm
  | cons p ps ih =>
    cases p with
    | comment text =>
      rw [ofPieces] at h
      obtain ⟨t, ht, hr⟩ := ih h hm
      exact ⟨t, List.mem_cons_of_mem _ ht, hr⟩
    | declaration text =>
      rw [ofPieces] at h
      split at h
      · cases h
      next name isOptional type hread =>
        cases hrest : ofPieces [] ps with
        | error e =>
          rw [hrest] at h
          cases h
        | ok others =>
          rw [hrest] at h
          cases h
          rcases List.mem_cons.1 hm with rfl | hm
          · exact ⟨text, List.mem_cons_self, hread⟩
          · obtain ⟨t, ht, hr⟩ := ih hrest hm
            exact ⟨t, List.mem_cons_of_mem _ ht, hr⟩

/-- The text of a type is shorter than the body it stands in. -/
theorem length_type_of_mem_readAll {body : List Char} {ms : List Member}
    (h : readAll body = .ok ms) {m : Member} (hm : m ∈ ms) : m.type.length < body.length := by
  obtain ⟨text, ht, hr⟩ := exists_declaration_of_mem_ofPieces h hm
  exact Nat.lt_of_lt_of_le (readDeclaration?_length hr) (length_of_mem_pieces ht)

end Member

end StyleGuide
