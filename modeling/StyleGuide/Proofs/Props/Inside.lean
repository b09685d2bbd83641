import StyleGuide.Proofs.Props.Grouping
import StyleGuide.Proofs.Sequence
import StyleGuide.Proofs.Text.Slice

/-!
# Texts inside of types

Reading a type looks into brackets, in front of `[]`, between `|` and at the members of braces, and
reads what it finds there as a type again. What it finds is what is left of the text when some
characters are left out, also where lines were joined and split on the way. So it is shorter each
time, and reading ends for every text.

## Main definitions

* `PropType.Form`: what a text is seen to be before the texts inside of it are read.
* `PropType.Form.inside`: the texts that are read next.
* `PropType.readWithin`: reading with a bound on how many readings are nested in each other.

## Main results

* `PropType.spec_of_mem_inside`: a text inside of another one is shorter.
* `PropType.read_eq_build`: a text is read by its form.
* `PropType.read_terminates`: reading ends, within as many nested readings as the text is long.
-/

namespace StyleGuide

open scoped List

namespace Member

variable {body cs name text type : List Char} {isOptional : Bool}

/-! ## Types of declarations -/

lemma typeText_sublist (cs : List Char) : typeText cs <+ cs := by
  have hright := trimRight_sublist cs
  rw [typeText]
  simp only
  split
  · split
    · exact hright
    · exact (trimRight_sublist _).trans ((List.dropLast_sublist _).trans hright)
  · exact hright

lemma sublist_of_readPlain? (h : readPlain? cs = some (name, isOptional, type)) : type <+ cs := by
  cases cs with
  | nil => cases h
  | cons c rest =>
    rw [readPlain?] at h
    split at h
    · simp only at h
      split at h
      next behind heq =>
        split at h
        · cases h
        · cases h
          have hbehind : behind <+ rest := by
            have hcolon := List.sublist_cons_self ':' behind
            rw [← heq] at hcolon
            refine (hcolon.trans (trimLeft_sublist _)).trans ?_
            split
            · exact (List.drop_sublist _ _).trans (List.dropWhile_sublist _)
            · exact List.dropWhile_sublist _
          exact (typeText_sublist _).trans ((trimLeft_sublist _).trans (hbehind.cons c))
      · cases h
    · cases h

lemma sublist_of_readDeclaration? (h : readDeclaration? cs = some (name, isOptional, type)) :
    type <+ cs := by
  rw [readDeclaration?] at h
  split at h
  · exact sublist_of_readPlain? h
  next rest hrest =>
    rw [behindWord?] at hrest
    split at hrest
    · cases hrest
      rcases Option.or_eq_some_iff.1 h with h | ⟨-, h⟩
      · exact (sublist_of_readPlain? h).trans ((trimLeft_sublist _).trans (List.drop_sublist _ _))
      · exact sublist_of_readPlain? h
    · cases hrest

/-- The types that are read while pieces are, up to the first piece that is no declaration. -/
def typesRead : List Piece → List (List Char)
  | [] => []
  | .comment _ :: rest => typesRead rest
  | .declaration text :: rest =>
    match readDeclaration? text with
    | none => []
    | some (_, _, type) => type :: typesRead rest

lemma exists_declaration_of_mem_typesRead {ps : List Piece} (h : type ∈ typesRead ps) :
    ∃ text name isOptional, .declaration text ∈ ps ∧
      readDeclaration? text = some (name, isOptional, type) := by
  induction ps with
  | nil => cases h
  | cons p ps ih =>
    cases p with
    | comment text =>
      obtain ⟨text, name, isOptional, hmem, hread⟩ := ih h
      exact ⟨text, name, isOptional, List.mem_cons_of_mem _ hmem, hread⟩
    | declaration text =>
      rw [typesRead] at h
      split at h
      · cases h
      next name isOptional first hread =>
        rcases List.mem_cons.1 h with rfl | h
        · exact ⟨text, name, isOptional, List.mem_cons_self, hread⟩
        · obtain ⟨text, name, isOptional, hmem, hread⟩ := ih h
          exact ⟨text, name, isOptional, List.mem_cons_of_mem _ hmem, hread⟩

/-- The type of a declaration in a body is shorter than the body. -/
lemma spec_of_mem_typesRead (h : type ∈ typesRead (pieces body)) :
    type <+ body ∧ type.length < body.length := by
  obtain ⟨text, name, isOptional, hmem, hread⟩ := exists_declaration_of_mem_typesRead h
  exact ⟨(sublist_of_readDeclaration? hread).trans (sublist_of_mem_pieces hmem),
    Nat.lt_of_lt_of_le (readDeclaration?_length hread) (length_of_mem_pieces hmem)⟩

/-- When all pieces are read, these are the types of the members. -/
lemma map_type_eq_typesRead {comments : List (List Char)} {ps : List Piece} {ms : List Member}
    (h : ofPieces comments ps = .ok ms) : ms.map (·.type) = typesRead ps := by
  induction ps generalizing comments ms with
  | nil =>
    cases h
    rfl
  | cons p ps ih =>
    cases p with
    | comment text => exact ih h
    | declaration text =>
      cases hread : readDeclaration? text with
      | none =>
        simp only [ofPieces, hread] at h
        cases h
      | some found =>
        simp only [ofPieces, hread] at h
        obtain ⟨others, hothers, rfl⟩ := map_eq_ok_iff.1 h
        simp only [typesRead, hread, List.map_cons, ih hothers]

end Member

namespace PropType

open StyleGuide.Bracket

/-! ## Forms -/

/-- What a text is seen to be before the texts inside of it are read. -/
inductive Form where
  /-- There is nothing inside. -/
  | whole (type : PropType)
  /-- Parentheses, which do not count. -/
  | wrapped (inner : List Char)
  | array (inner : List Char)
  | union (parts : List (List Char))
  | fields (ms : List Member)
  /-- Braces around something that is no declaration. The types in front of it are read all the
  same. -/
  | object (types : List (List Char))

namespace Form

/-- What braces are seen to be. -/
def ofBraces (inner : List Char) : Form :=
  match Member.readAll inner with
  | .ok ms => fields ms
  | .error _ => object (Member.typesRead (Member.pieces inner))

/-- What a text without alternatives is seen to be. -/
def ofSingle (cs : List Char) : Form :=
  match enclosed? '(' ')' cs with
  | some inner => wrapped inner
  | none =>
    match beforeBrackets? cs with
    | some inner => array inner
    | none =>
      match insideArray? cs with
      | some inner => array inner
      | none =>
        match enclosed? '\x7b' '\x7d' cs with
        | some inner => ofBraces inner
        | none => whole (ofName (String.ofList cs))

/-- What a text is seen to be. -/
def ofText (raw : List Char) : Form :=
  let text := trim raw
  if hasArrow text = true ∨ text = "Function".toList then whole (primitive "func")
  else if 2 ≤ (alternatives text).length then
    if (alternatives text).all isLiteral then
      whole (enumOf ((alternatives text).map fun p => ⟨String.ofList p, false⟩))
    else union (alternatives text)
  else ofSingle ((alternatives text).headD text)

/-- The texts that are read next. -/
def inside : Form → List (List Char)
  | whole _ => []
  | wrapped inner => [inner]
  | array inner => [inner]
  | union parts => parts
  | fields ms => ms.map (·.type)
  | object types => types

/-- The type that comes of it when the texts inside are read by `f`. -/
def build (f : List Char → PropType) : Form → PropType
  | whole type => type
  | wrapped inner => f inner
  | array inner => arrayOf (f inner)
  | union parts => unionOf (parts.map f)
  | fields ms => shape (ms.map fun m => ofMember m (f m.type))
  | object _ => primitive "object"

/-- The same when there may be no answer for a text inside, and then there is none for the whole. -/
def build? (f : List Char → Option PropType) : Form → Option PropType
  | whole type => some type
  | wrapped inner => f inner
  | array inner => (f inner).map arrayOf
  | union parts => (parts.mapM f).map unionOf
  | fields ms => (ms.mapM fun m => (f m.type).map (ofMember m)).map shape
  | object types => (types.mapM f).map fun _ => primitive "object"

/-- No texts are read but those inside. -/
lemma build?_eq_some {f : List Char → Option PropType} {g : List Char → PropType} {F : Form}
    (h : ∀ inner ∈ F.inside, f inner = some (g inner)) : F.build? f = some (F.build g) := by
  cases F with
  | whole type => rfl
  | wrapped inner => exact h inner List.mem_cons_self
  | array inner =>
    have hinner : f inner = some (g inner) := h inner List.mem_cons_self
    simp [build?, build, hinner]
  | union parts =>
    have hparts : parts.mapM f = some (parts.map g) := mapM_eq_pure_map h
    simp [build?, build, hparts]
  | fields ms =>
    have hmember : ∀ m ∈ ms, (f m.type).map (ofMember m) = some (ofMember m (g m.type)) :=
      fun m hm => by rw [h m.type (List.mem_map_of_mem hm), Option.map_some]
    have hms : (ms.mapM fun m => (f m.type).map (ofMember m)) =
        some (ms.map fun m => ofMember m (g m.type)) := mapM_eq_pure_map hmember
    simp [build?, build, hms]
  | object types =>
    have htypes : types.mapM f = some (types.map g) := mapM_eq_pure_map h
    simp [build?, build, htypes]

lemma build_congr {f g : List Char → PropType} {F : Form}
    (h : ∀ inner ∈ F.inside, f inner = g inner) : F.build f = F.build g := by
  have hf : F.build? (some ∘ f) = some (F.build f) := build?_eq_some fun _ _ => rfl
  have hg : F.build? (some ∘ f) = some (F.build g) :=
    build?_eq_some fun inner hinner => congrArg some (h inner hinner)
  exact Option.some.inj (hf.symm.trans hg)

end Form

/-- Reading where at most `n` readings are nested in each other. There is no answer when one more
would be needed. -/
def readWithin : Nat → List Char → Option PropType
  | 0, _ => none
  | n + 1, raw => (Form.ofText raw).build? (readWithin n)

variable {raw inner part cs : List Char}

/-! ## Texts inside -/

lemma sublist_of_enclosed? {opening closing : Char}
    (h : enclosed? opening closing cs = some inner) : inner <+ cs := by
  cases cs with
  | nil => cases h
  | cons c rest =>
    rw [enclosed?] at h
    split at h
    · split at h
      · cases h
      · cases h
        exact (List.dropLast_sublist rest).cons c
    · cases h

lemma sublist_of_beforeBrackets? (h : beforeBrackets? cs = some inner) : inner <+ cs := by
  rw [beforeBrackets?] at h
  split at h
  · cases h
    exact List.take_sublist _ _
  · cases h

lemma sublist_of_insideArray? (h : insideArray? cs = some inner) : inner <+ cs := by
  rw [insideArray?] at h
  split at h
  · cases h
    exact (List.dropLast_sublist _).trans (List.drop_sublist _ _)
  · cases h

lemma sublist_of_mem_alternatives (h : part ∈ alternatives cs) : part <+ cs := by
  obtain ⟨piece, hpiece, rfl⟩ := List.mem_map.1 (List.mem_filter.1 h).1
  exact (trim_sublist piece).trans (sublist_of_mem_split hpiece)

lemma headD_alternatives_sublist (cs : List Char) : (alternatives cs).headD cs <+ cs := by
  cases hparts : alternatives cs with
  | nil => exact List.Sublist.refl cs
  | cons part parts =>
    have hmem : part ∈ alternatives cs := hparts ▸ List.mem_cons_self
    exact sublist_of_mem_alternatives hmem

lemma inside_ofBraces (cs : List Char) :
    (Form.ofBraces cs).inside = Member.typesRead (Member.pieces cs) := by
  rw [Form.ofBraces]
  split
  next ms hms =>
    exact Member.map_type_eq_typesRead hms
  · rfl

lemma spec_of_mem_inside_ofSingle (h : inner ∈ (Form.ofSingle cs).inside) :
    inner <+ cs ∧ inner.length < cs.length := by
  rw [Form.ofSingle] at h
  split at h
  next text htext =>
    cases List.mem_singleton.1 h
    exact ⟨sublist_of_enclosed? htext, enclosed?_length htext⟩
  · split at h
    next text htext =>
      cases List.mem_singleton.1 h
      exact ⟨sublist_of_beforeBrackets? htext, beforeBrackets?_length htext⟩
    · split at h
      next text htext =>
        cases List.mem_singleton.1 h
        exact ⟨sublist_of_insideArray? htext, insideArray?_length htext⟩
      · split at h
        next text htext =>
          rw [inside_ofBraces] at h
          obtain ⟨hsublist, hlength⟩ := Member.spec_of_mem_typesRead h
          exact ⟨hsublist.trans (sublist_of_enclosed? htext),
            Nat.lt_trans hlength (enclosed?_length htext)⟩
        · cases h

/-- A text inside of another one is what is left of it when characters are left out, and at least
one is. -/
theorem spec_of_mem_inside (h : inner ∈ (Form.ofText raw).inside) :
    inner <+ raw ∧ inner.length < raw.length := by
  have htrim := trim_sublist raw
  have key : inner <+ trim raw ∧ inner.length < (trim raw).length := by
    rw [Form.ofText] at h
    split at h
    · cases h
    · split at h
      next hseveral =>
        split at h
        · cases h
        · exact ⟨sublist_of_mem_alternatives h, alternatives_length h hseveral⟩
      · obtain ⟨hsublist, hlength⟩ := spec_of_mem_inside_ofSingle h
        have hhead := headD_alternatives_sublist (trim raw)
        exact ⟨hsublist.trans hhead, Nat.lt_of_lt_of_le hlength hhead.length_le⟩
  exact ⟨key.1.trans htrim, Nat.lt_of_lt_of_le key.2 htrim.length_le⟩

/-! ## Reading by forms -/

/-- A text is read by its form. -/
theorem read_eq_build (raw : List Char) : read raw = (Form.ofText raw).build read := by
  have hattach : ∀ ms : List Member, (ms.attach.map fun m => ofMember m.1 (read m.1.type)) =
      ms.map fun m => ofMember m (read m.type) := fun ms => by simp
  rw [read, Form.ofText]
  by_cases hfunction : hasArrow (trim raw) = true ∨ trim raw = "Function".toList
  · rw [if_pos hfunction, if_pos hfunction]
    rfl
  · rw [if_neg hfunction, if_neg hfunction]
    by_cases hseveral : 2 ≤ (alternatives (trim raw)).length
    · rw [dif_pos hseveral, if_pos hseveral]
      split
      · rfl
      · simp [Form.build]
    · rw [dif_neg hseveral, if_neg hseveral, Form.ofSingle]
      simp only [hattach, Form.ofBraces]
      grind [Form.build]

/-- As many nested readings as the text is long, and one, are enough. -/
theorem readWithin_eq_read {n : Nat} (h : raw.length < n) :
    readWithin n raw = some (read raw) := by
  induction n generalizing raw with
  | zero => omega
  | succ n ih =>
    rw [readWithin, read_eq_build]
    apply Form.build?_eq_some
    intro inner hinner
    have := (spec_of_mem_inside hinner).2
    exact ih (by omega)

/-- Every text on which reading calls itself is what is left of the text at hand when characters are
left out, and at least one is, so that it has fewer characters and fewer bytes. Nothing is used but
how these texts are read. So reading ends for every text: no more readings are nested in each other
than the text has characters, and one. -/
theorem read_terminates (raw : List Char) :
    (∀ inner ∈ (Form.ofText raw).inside,
        inner <+ raw ∧ inner.length < raw.length ∧ byteSize inner < byteSize raw) ∧
      (∀ f : List Char → PropType, (∀ inner ∈ (Form.ofText raw).inside, f inner = read inner) →
        (Form.ofText raw).build f = read raw) ∧
      ∀ n, raw.length < n → readWithin n raw = some (read raw) := by
  refine ⟨fun inner hinner => ?_, fun f hf => ?_, fun n => readWithin_eq_read⟩
  · obtain ⟨hsublist, hlength⟩ := spec_of_mem_inside hinner
    have hbytes := byteSize_add_length_le hsublist
    exact ⟨hsublist, hlength, by omega⟩
  · rw [Form.build_congr hf, ← read_eq_build]

/-- A shape with an array and a number. -/
def tableType : List Char := "\x7b\n  rows: (Row\n    | null)[];\n  size: number \x7d".toList

/-- The text is
```
{
  rows: (Row
    | null)[];
  size: number }
```
Five readings are nested in each other: those of the shape, the array, the parentheses, the
alternatives and the names. -/
theorem read_terminates_tableType :
    tableType.length < 60 ∧
      (Form.ofText tableType).inside = ["(Row\n| null)[]".toList, "number".toList] ∧
      (∀ inner ∈ (Form.ofText tableType).inside, inner <+ tableType ∧
        inner.length < tableType.length ∧ byteSize inner < byteSize tableType) ∧
      (∀ inner ∈ (Form.ofText tableType).inside,
        (readWithin 60 inner).getD (primitive "object") = read inner) ∧
      (Form.ofText tableType).build
        (fun inner => (readWithin 60 inner).getD (primitive "object")) = read tableType ∧
      readWithin 60 tableType = some (read tableType) ∧
      (readWithin 4 tableType).isNone = true ∧ (readWithin 5 tableType).isSome = true := by
  have hlength : tableType.length < 60 := by decide
  have hinside : (Form.ofText tableType).inside =
      ["(Row\n| null)[]".toList, "number".toList] := by decide
  have hread : ∀ inner ∈ (Form.ofText tableType).inside,
      (readWithin 60 inner).getD (primitive "object") = read inner := fun inner hinner => by
    have hshort : inner.length < 60 := Nat.lt_trans (spec_of_mem_inside hinner).2 hlength
    rw [readWithin_eq_read hshort, Option.getD_some]
  obtain ⟨hshorter, hbuild, hwithin⟩ := read_terminates tableType
  exact ⟨hlength, hinside, hshorter, hread, hbuild _ hread, hwithin 60 hlength, by decide,
    by decide⟩

end PropType

end StyleGuide
