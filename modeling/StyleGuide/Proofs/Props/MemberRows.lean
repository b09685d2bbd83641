import StyleGuide.Proofs.Props.Interface
import StyleGuide.Proofs.Props.Parameter
import StyleGuide.Proofs.Props.Separators

/-!
# Members in rows

How the members of an interface are spread over its lines does not matter, as long as the brace that
closes it starts a line: several members on a line, with semicolons behind them, are read as the
same properties as each of them on a line of its own. A brace at the end of a line does not close
the interface.

## Main definitions

* `Member.rowText`: members on one line.
* `Interface.printRows`: the source of an interface with these rows.
* `Interface.printClosed`: the source of an interface that is closed on the line of its members.

## Main results

* `Member.readAll_rows`: members are read back from their rows.
* `Interface.firstMatch_printRows`: the first parameter of a source with these rows.
* `Interface.extract_printRows`: what is extracted from a source with these rows.
* `Interface.props_extract_printRows`: the properties do not depend on the rows.
-/

namespace StyleGuide

namespace Member

open StyleGuide.Bracket

/-- The members that are told by their declarations: they have no comments, and the brackets in
their types match. -/
structure IsNested (m : Member) : Prop extends IsWritable m where
  nested : Nested m.type
  noComments : m.comments = []

/-! ## Rows -/

/-- A member behind some spaces, with a semicolon behind it. -/
def entry (e : Nat × Member) : List Char := List.replicate e.1 ' ' ++ (e.2.declaration ++ [';'])

/-- Members on one line. -/
def rowText (row : List (Nat × Member)) : List Char := row.flatMap entry

variable {row : List (Nat × Member)} {m : Member}

lemma rowText_cons (n : Nat) (m : Member) (row : List (Nat × Member)) :
    rowText ((n, m) :: row) = List.replicate n ' ' ++ m.declaration ++ ';' :: rowText row := by
  simp [rowText, entry]

lemma isBlank_of_mem_spaces (n : Nat) : ∀ b ∈ List.replicate n ' ', isBlank b = true := by
  intro b hb
  rw [List.eq_of_mem_replicate hb]
  rfl

/-- No row ends the body. -/
lemma rowText_isLine (h : ∀ e ∈ row, e.2.IsWritable) :
    '\n' ∉ rowText row ∧ (rowText row).head? ≠ some '\x7d' := by
  constructor
  · rw [rowText, List.mem_flatMap]
    rintro ⟨e, he, hmem⟩
    simp [entry, (h e he).not_mem] at hmem
  · cases row with
    | nil => simp [rowText]
    | cons e row =>
      obtain ⟨n, m⟩ := e
      have hm : m.IsWritable := h (n, m) List.mem_cons_self
      have hline := hm.isLine.notClosing
      rw [rowText_cons]
      cases n with
      | zero =>
        obtain ⟨c, tail, hcons⟩ := List.exists_cons_of_ne_nil hm.isPart.isTrimmed.ne_nil
        rw [hcons] at hline ⊢
        simpa using hline
      | succ n => simp [List.replicate_succ]

/-- The declarations on a row are told apart, whatever stands behind it. -/
lemma parts_rowText_append (h : ∀ e ∈ row, e.2.IsDeclarable) (rest : List Char) :
    parts endsMember (rowText row ++ rest) =
      row.map (·.2.declaration) ++ parts endsMember rest := by
  induction row with
  | nil => rfl
  | cons e row ih =>
    obtain ⟨n, m⟩ := e
    obtain ⟨hm, hrow⟩ := List.forall_mem_cons.1 h
    have hspaces : IsBetween endsMember (List.replicate n ' ') :=
      fun b hb => .inl (isBlank_of_mem_spaces n b hb)
    rw [rowText_cons, List.append_assoc, List.append_assoc, List.cons_append,
      parts_gap_append isNeutral_of_endsMember hspaces,
      parts_append_cons hm.closesLines.closes rfl rfl, hm.parts_eq, ih hrow]
    rfl

lemma closesLines_rowText_append (h : ∀ e ∈ row, e.2.IsDeclarable) {rest : List Char}
    (hrest : ClosesLines rest) : ClosesLines (rowText row ++ rest) := by
  induction row with
  | nil => exact hrest
  | cons e row ih =>
    obtain ⟨n, m⟩ := e
    obtain ⟨hm, hrow⟩ := List.forall_mem_cons.1 h
    have htail : ClosesLines ([';'] ++ (rowText row ++ rest)) :=
      (ih hrow).neutral_append (List.forall_mem_singleton.2 rfl)
    have hmember : ClosesLines (m.declaration ++ ';' :: (rowText row ++ rest)) :=
      hm.closesLines.append htail (by simp)
    have hspaces : ∀ b ∈ List.replicate n ' ', isNeutral b = true :=
      fun b hb => isNeutral_of_isBlank (isBlank_of_mem_spaces n b hb)
    rw [rowText_cons, List.append_assoc, List.append_assoc]
    exact hmember.neutral_append hspaces

/-! ## Members in rows -/

variable {rows : List (List (Nat × Member))}

/-- The members of some rows. -/
def membersOf (rows : List (List (Nat × Member))) : List Member := rows.flatten.map (·.2)

lemma mem_membersOf {e : Nat × Member} (hrow : row ∈ rows) (he : e ∈ row) :
    e.2 ∈ membersOf rows :=
  List.mem_map_of_mem (List.mem_flatten_of_mem hrow he)

lemma membersOf_cons (row : List (Nat × Member)) (rows : List (List (Nat × Member))) :
    membersOf (row :: rows) = row.map (·.2) ++ membersOf rows := by
  simp [membersOf]

lemma parts_rows (h : ∀ row ∈ rows, ∀ e ∈ row, e.2.IsDeclarable) :
    parts endsMember (endLines (rows.map rowText)) = (membersOf rows).map declaration := by
  induction rows with
  | nil => rfl
  | cons row rows ih =>
    obtain ⟨hrow, hrows⟩ := List.forall_mem_cons.1 h
    have hbreak : ∀ rest, parts endsMember ('\n' :: rest) = parts endsMember rest :=
      fun _ => parts_cons_of_isBlank rfl
    rw [List.map_cons, endLines_cons, parts_rowText_append hrow, hbreak, ih hrows, membersOf_cons,
      List.map_append, List.map_map]
    rfl

lemma closesLines_rows (h : ∀ row ∈ rows, ∀ e ∈ row, e.2.IsDeclarable) :
    ClosesLines (endLines (rows.map rowText)) := by
  induction rows with
  | nil => exact ⟨trivial, rfl⟩
  | cons row rows ih =>
    obtain ⟨hrow, hrows⟩ := List.forall_mem_cons.1 h
    have htail : ClosesLines (['\n'] ++ endLines (rows.map rowText)) :=
      (ih hrows).neutral_append (List.forall_mem_singleton.2 rfl)
    rw [List.map_cons, endLines_cons]
    exact closesLines_rowText_append hrow htail

/-- Members without comments are read back from their rows. -/
theorem readAll_rows (h : ∀ m ∈ membersOf rows, m.IsWritable)
    (hcomments : ∀ m ∈ membersOf rows, m.comments = []) :
    readAll (endLines (rows.map rowText)) = .ok (membersOf rows) := by
  have hrow : ∀ row ∈ rows, ∀ e ∈ row, e.2.IsDeclarable :=
    fun row hrow e he => (h _ (mem_membersOf hrow he)).isDeclarable
  have hsame : (membersOf rows).map (fun m => { m with comments := [] }) = membersOf rows := by
    conv_rhs => rw [← List.map_id (membersOf rows)]
    refine List.map_congr_left fun m hm => ?_
    rw [← hcomments m hm]
    rfl
  rw [readAll_eq_ok (closesLines_rows hrow) (parts_rows hrow) fun m hm => (h m hm).isDeclarable,
    hsame]

end Member

namespace Interface

open Member
open StyleGuide.Bracket

variable {component : List Char} {rows rows' : List (List (Nat × Member))}

/-! ## The source of an interface -/

/-- The source of an interface up to the brace that opens it. -/
def header (component : List Char) : List Char :=
  "interface".toList ++ ' ' :: (component ++ "Props".toList ++ [' ', '\x7b'])

/-- The source of an interface with its members in these rows, the first of which stands on the line
of the name. -/
def printRows (component : List Char) (rows : List (List (Nat × Member))) : List Char :=
  header component ++ (endLines (rows.map rowText) ++ ['\x7d'])

/-- The source of an interface that is closed on the line of its members. -/
def printClosed (component : List Char) (row : List (Nat × Member)) : List Char :=
  header component ++ (rowText row ++ [' ', '\x7d'])

/-- The body of an interface is looked for behind the brace. -/
lemma body?_header (hcomponent : ∀ c ∈ component, isWord c = true) (inside : List Char) :
    body? (header component ++ inside) = beforeClosing? '\x7b' inside := by
  have hname : ∀ c ∈ component ++ "Props".toList, isWord c = true := by
    have hword : ∀ c ∈ "Props".toList, isWord c = true := List.all_eq_true.1 (by decide)
    exact fun c hc => (List.mem_append.1 hc).elim (hcomponent c) (hword c)
  have hheader := behindHeader?_append hname (List.suffix_append _ _) ('\x7b' :: inside)
  have hassoc : ∀ front name : List Char, front ++ ' ' :: (name ++ [' ', '\x7b']) ++ inside =
      front ++ ' ' :: (name ++ ' ' :: '\x7b' :: inside) := by
    simp
  have hsource : header component ++ inside =
      "interface".toList ++ ' ' :: (component ++ "Props".toList ++ ' ' :: '\x7b' :: inside) :=
    hassoc "interface".toList (component ++ "Props".toList)
  rw [hsource, body?, firstMatch_eq hheader]
  simp

/-- The rows are the body, whatever stands behind the interface. -/
lemma body?_printRows (hcomponent : ∀ c ∈ component, isWord c = true) (hne : rows ≠ [])
    (h : ∀ m ∈ membersOf rows, m.IsWritable) (rest : List Char) :
    body? (printRows component rows ++ rest) = some (endLines (rows.map rowText)) := by
  have hline : ∀ row ∈ rows, '\n' ∉ rowText row ∧ (rowText row).head? ≠ some '\x7d' := by
    intro row hrow
    exact rowText_isLine fun e he => h _ (mem_membersOf hrow he)
  obtain ⟨row, rows, rfl⟩ := List.exists_cons_of_ne_nil hne
  have hfirst := hline row List.mem_cons_self
  have hrest : beforeClosing? '\n' (endLines (rows.map rowText) ++ '\x7d' :: rest) =
      some (endLines (rows.map rowText)) :=
    beforeClosing?_endLines
      (List.forall_mem_map.2 fun r hr => hline r (List.mem_cons_of_mem _ hr)) rest
  rw [printRows, List.append_assoc, body?_header hcomponent, List.map_cons, endLines_cons,
    List.append_assoc, List.append_assoc, List.cons_append,
    beforeClosing?_append hfirst.1 fun hbrace => absurd hbrace (by decide)]
  change (beforeClosing? '\n' (endLines (rows.map rowText) ++ '\x7d' :: rest)).map _ = _
  rw [hrest]
  rfl

/-! ## Default values -/

/-- No parameter leads out of a member, and it has one just where its type has one. -/
lemma isSettled_entry {m : Member} (hname : IsName m.name) (htype : Nested m.type) (n : Nat) :
    IsSettled (entry (n, m)) ∧
      firstMatch parameter? (entry (n, m)) = firstMatch parameter? m.type := by
  have hentry : entry (n, m) =
      (List.replicate n ' ' ++ m.name ++ mark m.isOptional) ++ (m.type ++ [';']) := by
    simp [entry, declaration]
  have hfront : '(' ∉ List.replicate n ' ' ++ m.name ++ mark m.isOptional := by
    have hopen : '(' ∉ m.name := fun hmem => by cases hname.continues _ hmem
    have hmark : '(' ∉ mark m.isOptional := by cases m.isOptional <;> decide
    simp [hopen, hmark]
  have hend : '(' ∉ [';'] := by decide
  have hsettled := isSettled_of_nested htype
  rw [hentry, firstMatch_append (isSettled_of_not_mem hfront), firstMatch_append hsettled,
    firstMatch_eq_none hfront, firstMatch_eq_none hend, Option.none_or, Option.or_none]
  exact ⟨(isSettled_of_not_mem hfront).append (hsettled.append (isSettled_of_not_mem hend)), rfl⟩

/-- The first parameter in some rows is the first one in the types of their members. -/
lemma isSettled_rows (h : ∀ m ∈ membersOf rows, m.IsNested) :
    IsSettled (endLines (rows.map rowText)) ∧
      firstMatch parameter? (endLines (rows.map rowText)) =
        (membersOf rows).findSome? fun m => firstMatch parameter? m.type := by
  have hbreak : IsSettled ['\n'] := isSettled_of_not_mem (by decide)
  have hrow : ∀ row ∈ rows, IsSettled (rowText row ++ ['\n']) ∧
      firstMatch parameter? (rowText row ++ ['\n']) =
        (row.map (·.2)).findSome? fun m => firstMatch parameter? m.type := by
    intro row hmem
    have hentries : IsSettled (rowText row) ∧ firstMatch parameter? (rowText row) =
        row.findSome? fun e => firstMatch parameter? e.2.type :=
      isSettled_flatMap fun e he =>
        have hnested := h _ (mem_membersOf hmem he)
        isSettled_entry hnested.isName hnested.nested e.1
    rw [firstMatch_append hentries.1, hentries.2, List.findSome?_map]
    exact ⟨hentries.1.append hbreak, Option.or_none⟩
  have hlines : endLines (rows.map rowText) = rows.flatMap fun row => rowText row ++ ['\n'] := by
    rw [endLines, List.flatMap_map]
  obtain ⟨hsettled, hfirst⟩ := isSettled_flatMap hrow
  rw [hlines, hfirst]
  refine ⟨hsettled, ?_⟩
  clear h hrow hlines hsettled hfirst
  induction rows with
  | nil => rfl
  | cons row rows ih =>
    rw [membersOf_cons, List.findSome?_append, List.findSome?_cons, ih]
    cases (row.map (·.2)).findSome? fun m => firstMatch parameter? m.type <;> rfl

/-- The first parameter of a source is looked for in the types of the members in their order. -/
lemma firstMatch_printRows (hcomponent : ∀ c ∈ component, isWord c = true)
    (h : ∀ m ∈ membersOf rows, m.IsNested) (rest : List Char) :
    firstMatch parameter? (printRows component rows ++ rest) =
      ((membersOf rows).findSome? fun m => firstMatch parameter? m.type).or
        (firstMatch parameter? ('\x7d' :: rest)) := by
  have hheader : '(' ∉ header component := by
    have hword : '(' ∉ component := fun hmem => by cases hcomponent _ hmem
    have hinterface : '(' ∉ "interface".toList := by decide
    have hprops : '(' ∉ "Props".toList := by decide
    have hend : '(' ∉ [' ', '\x7b'] := by decide
    unfold header
    rw [List.mem_append, List.mem_cons, List.mem_append, List.mem_append]
    rintro (hmem | hmem | (hmem | hmem) | hmem)
    · exact hinterface hmem
    · cases hmem
    · exact hword hmem
    · exact hprops hmem
    · exact hend hmem
  obtain ⟨hsettled, hrows⟩ := isSettled_rows h
  rw [printRows, List.append_assoc, List.append_assoc,
    firstMatch_append (isSettled_of_not_mem hheader), firstMatch_eq_none hheader,
    firstMatch_append hsettled, hrows]
  rfl

/-! ## What is extracted -/

/-- All that is extracted from an interface in rows. -/
lemma extract_printRows (hcomponent : ∀ c ∈ component, isWord c = true) (hne : rows ≠ [])
    (h : ∀ m ∈ membersOf rows, m.IsNested) (rest : List Char) :
    let source := printRows component rows ++ rest
    extract (String.ofList source) = .ok ⟨String.ofList (description source),
      (defaults source).foldl setDefault
        ((membersOf rows).map fun m => PropType.ofMember m (.read m.type))⟩ := by
  intro source
  have hwritable : ∀ m ∈ membersOf rows, m.IsWritable := fun m hm => (h m hm).toIsWritable
  have hbody : body? source = some (endLines (rows.map rowText)) :=
    body?_printRows hcomponent hne hwritable rest
  have hread := readAll_rows hwritable fun m hm => (h m hm).noComments
  rw [extract]
  simp only [String.toList_ofList, hbody, hread]

/-- There is no end of a body just where no line starts with a brace. -/
lemma beforeClosing?_eq_none_iff {before : Char} {cs : List Char} :
    beforeClosing? before cs = none ↔ ¬ ['\n', '\x7d'] <:+: before :: cs := by
  induction cs generalizing before with
  | nil =>
    refine iff_of_true rfl fun h => ?_
    simpa using h.length_le
  | cons c cs ih =>
    rw [beforeClosing?, List.infix_cons_iff, List.cons_prefix_cons, List.cons_prefix_cons, not_or,
      ← ih]
    split
    · simp_all
    · rw [Option.map_eq_none_iff]
      grind

lemma infix_append_iff_of_not_mem {α : Type} {x : α} {xs ys zs : List α} (h : x ∉ xs) :
    x :: ys <:+: xs ++ zs ↔ x :: ys <:+: zs := by
  induction xs with
  | nil => rfl
  | cons y xs ih =>
    rw [List.mem_cons, not_or] at h
    rw [List.cons_append, List.infix_cons_iff, ih h.2, List.cons_prefix_cons, or_iff_right]
    exact fun heq => h.1 heq.1

lemma extract_eq_noProps_iff {source : List Char} :
    extract (String.ofList source) = .error .noProps ↔ body? source = none := by
  rw [extract, String.toList_ofList]
  simp only
  split
  · simp_all
  · split <;> simp_all

/-- A brace on the line of the members does not close the interface. -/
lemma extract_printClosed_iff {row : List (Nat × Member)}
    (hcomponent : ∀ c ∈ component, isWord c = true) (h : ∀ e ∈ row, e.2.IsWritable)
    (rest : List Char) :
    extract (String.ofList (printClosed component row ++ rest)) = .error .noProps ↔
      ¬ ['\n', '\x7d'] <:+: rest := by
  have hbreak : '\n' ∉ '\x7b' :: (rowText row ++ [' ', '\x7d']) := by
    simp [(rowText_isLine h).1]
  rw [extract_eq_noProps_iff, printClosed, List.append_assoc, body?_header hcomponent,
    beforeClosing?_eq_none_iff, ← List.cons_append, infix_append_iff_of_not_mem hbreak]

/-- How the members of an interface are spread over its lines does not matter for the properties
that are extracted, whatever stands behind the interface, as long as the brace that closes it starts
a line. Where the brace stands on the line of the members, there are no properties just when no
later line starts with a brace. -/
theorem props_extract_printRows {ms : List Member} (hcomponent : ∀ c ∈ component, isWord c = true)
    (h : ∀ m ∈ ms, m.IsNested) (rest : List Char) :
    (∀ rows rows' : List (List (Nat × Member)), rows ≠ [] → rows' ≠ [] → membersOf rows = ms →
      membersOf rows' = ms →
        ∃ doc doc', extract (String.ofList (printRows component rows ++ rest)) = .ok doc ∧
          extract (String.ofList (printRows component rows' ++ rest)) = .ok doc' ∧
            doc.props = doc'.props) ∧
    ∀ row : List (Nat × Member), row.map (·.2) = ms →
      (extract (String.ofList (printClosed component row ++ rest)) = .error .noProps ↔
        ¬ ['\n', '\x7d'] <:+: rest) := by
  refine ⟨fun rows rows' hne hne' hrows hrows' => ?_, ?_⟩
  · subst hrows
    have h' : ∀ m ∈ membersOf rows', m.IsNested := by rwa [hrows']
    have hdefaults : defaults (printRows component rows ++ rest) =
        defaults (printRows component rows' ++ rest) := by
      apply defaults_congr
      rw [firstMatch_printRows hcomponent h, firstMatch_printRows hcomponent h', hrows']
    refine ⟨_, _, extract_printRows hcomponent hne h rest,
      extract_printRows hcomponent hne' h' rest, ?_⟩
    simp only
    rw [hdefaults, hrows']
  · rintro row rfl
    exact extract_printClosed_iff hcomponent
      (fun e he => (h e.2 (List.mem_map_of_mem he)).toIsWritable) rest

/-- A required string, and a function. -/
def pressMembers : List Member :=
  [labelMember [], ⟨"onPress".toList, true, "() => void".toList, []⟩]

lemma isNested_of_mem_pressMembers : ∀ m ∈ pressMembers, m.IsNested := by
  have hstring : Nested "string".toList := nested_of_forall (by simp [isBracket, isOpening])
  have hvoid : Nested " void".toList := nested_of_forall (by simp [isBracket, isOpening])
  have hfunction : Nested "() => void".toList :=
    .wrap (by decide) .nil (.plain (by decide) (.arrow hvoid))
  have hpart : IsPart endsDeclaration "() => void".toList := ⟨by decide, by decide, by decide⟩
  have hname : IsName "onPress".toList := by decide
  exact List.forall_mem_cons.2 ⟨⟨labelMember_isWritable [], hstring, rfl⟩,
    List.forall_mem_singleton.2 ⟨⟨hname, ⟨hpart, by decide⟩⟩, hfunction, rfl⟩⟩

/-- The sources are
```
interface CardProps { label: string; onPress?: () => void;
}
```
and
```
interface CardProps {
  label: string;
  onPress?: () => void;
}
```
and `interface CardProps { label: string; onPress?: () => void; }`. -/
theorem props_extract_printRows_pressMembers :
    (∃ doc doc', extract (String.ofList (printRows "Card".toList
          [pressMembers.map fun m => (1, m)] ++ ['\n'])) = .ok doc ∧
        extract (String.ofList (printRows "Card".toList
          ([] :: pressMembers.map fun m => [(2, m)]) ++ ['\n'])) = .ok doc' ∧
        doc.props = doc'.props) ∧
      extract (String.ofList (printClosed "Card".toList
        (pressMembers.map fun m => (1, m)) ++ ['\n'])) = .error .noProps := by
  have hcomponent : ∀ c ∈ "Card".toList, isWord c = true := List.all_eq_true.1 (by decide)
  obtain ⟨hrows, hclosed⟩ :=
    props_extract_printRows hcomponent isNested_of_mem_pressMembers ['\n']
  refine ⟨hrows _ _ (List.cons_ne_nil _ _) (List.cons_ne_nil _ _) rfl rfl, ?_⟩
  exact (hclosed _ rfl).2 (by decide)

/-- The sources are `interface CardProps { label: string; }` and
```
interface CardProps {
  label: string;
}
```
-/
theorem extract_printClosed_labelMember :
    (labelMember []).IsNested ∧
      extract (String.ofList (printClosed "Card".toList [(1, labelMember [])] ++ ['\n'])) =
        .error .noProps ∧
      ∃ doc, extract (String.ofList
        (printRows "Card".toList [[], [(2, labelMember [])]] ++ ['\n'])) = .ok doc := by
  have hcomponent : ∀ c ∈ "Card".toList, isWord c = true := List.all_eq_true.1 (by decide)
  have hplain := isNested_of_mem_pressMembers (labelMember []) List.mem_cons_self
  have hrow : ∀ e ∈ [(1, labelMember [])], e.2.IsWritable :=
    List.forall_mem_singleton.2 hplain.toIsWritable
  refine ⟨hplain, (extract_printClosed_iff hcomponent hrow ['\n']).2 (by decide), _,
    extract_printRows hcomponent (List.cons_ne_nil _ _) ?_ ['\n']⟩
  exact List.forall_mem_singleton.2 hplain

end Interface

end StyleGuide
