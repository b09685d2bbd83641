import StyleGuide.FileSystem.Walk
import StyleGuide.Proofs.Path.Order

/-!
# Looking up names

What a directory holds, where the pieces of a path lead, and how the place that a path leads to
changes when one more name is joined to the path.

## Main definitions

* `FileSystem.WellFormed`: entries have names of their own and stand in directories.
* `FileSystem.IsLink`: a path leads to a link.
* `FileSystem.Leads`: the steps from place to place by which a path is followed.

## Main results

* `FileSystem.mem_names_iff`, `FileSystem.pairwise_names`: the names of a directory, in order.
* `FileSystem.follow_eq_iff`: a path is followed by these steps.
* `FileSystem.target_eq_of_not_isLink`: where no link is at the end of a path, it does not matter
  whether one would be followed.
* `FileSystem.target_join`, `FileSystem.resolve_join`: a name in a directory has its place there,
  and leads to the entry itself, unless that is a link.
* `FileSystem.exists_resolve_of_join`: where a name can be looked up, the path before it leads to a
  directory that has an entry of that name.
-/

namespace StyleGuide.FileSystem

/-- What every file system keeps: entries have proper names and stand in directories, and no link
holds a NUL byte. -/
structure WellFormed (fs : FileSystem) : Prop where
  isFileName : ∀ e ∈ fs.entries, ∀ n ∈ e.1, IsFileName n
  inDirectory : ∀ e ∈ fs.entries, fs.entry? e.1.dropLast = some .directory
  link_no_nul : ∀ e ∈ fs.entries, ∀ target, e.2 = .link target → 0 ∉ target.bytes

/-- The path leads to a link, which is not itself followed. -/
def IsLink (fs : FileSystem) (p : Path) : Prop :=
  ∃ q target, fs.target false p = .ok (.found q) ∧ fs.entry? q = some (.link target)

variable {fs : FileSystem}

/-! ## The names of a directory -/

lemma nameIn?_eq_some_iff {place entryPlace : Place} {n : Bytes} :
    nameIn? place entryPlace = some n ↔ entryPlace = place ++ [n] := by
  unfold nameIn?
  constructor
  · intro h
    split_ifs at h with hplace
    obtain ⟨front, rfl⟩ := List.getLast?_eq_some_iff.1 h
    simpa using hplace
  · rintro rfl
    simp

lemma entry?_concat (fs : FileSystem) (place : Place) (n : Bytes) :
    fs.entry? (place ++ [n]) = fs.entries.lookup (place ++ [n]) :=
  if_neg (by simp)

@[simp] lemma mem_insertName {m n : Bytes} {ms : List Bytes} :
    m ∈ insertName n ms ↔ m = n ∨ m ∈ ms := by
  induction ms with
  | nil => simp [insertName]
  | cons k ms ih =>
    unfold insertName
    split_ifs with hsame hbefore
    · simp [hsame]
    · rw [List.mem_cons]
    · rw [List.mem_cons, ih, List.mem_cons, or_left_comm]

lemma pairwise_insertName (n : Bytes) {ms : List Bytes} (h : ms.Pairwise (· < ·)) :
    (insertName n ms).Pairwise (· < ·) := by
  induction ms with
  | nil => exact List.pairwise_singleton _ _
  | cons k ms ih =>
    obtain ⟨hk, hms⟩ := List.pairwise_cons.1 h
    unfold insertName
    split_ifs with hsame hbefore
    · exact h
    · refine List.pairwise_cons.2 ⟨fun m hm => ?_, h⟩
      rcases List.mem_cons.1 hm with rfl | hm
      · exact hbefore
      · exact List.lt_trans hbefore (hk m hm)
    · have hbehind : k < n :=
        (List.le_iff_lt_or_eq.1 (List.not_lt.1 hbefore)).resolve_right (Ne.symm hsame)
      refine List.pairwise_cons.2 ⟨fun m hm => ?_, ih hms⟩
      rcases mem_insertName.1 hm with rfl | hm
      · exact hbehind
      · exact hk m hm

/-- A directory holds the names at whose places something stands. -/
theorem mem_names_iff {place : Place} {n : Bytes} :
    n ∈ fs.names place ↔ (fs.entry? (place ++ [n])).isSome := by
  have hmem : ∀ ns : List Bytes, n ∈ ns.foldr insertName [] ↔ n ∈ ns := by
    intro ns
    induction ns with
    | nil => rfl
    | cons m ns ih => rw [List.foldr_cons, mem_insertName, ih, List.mem_cons]
  rw [entry?_concat, List.lookup_isSome_iff, names, hmem, List.mem_filterMap]
  simp only [nameIn?_eq_some_iff, beq_iff_eq]
  exact ⟨fun ⟨e, he, h⟩ => ⟨e, he, h.symm⟩, fun ⟨e, he, h⟩ => ⟨e, he, h.symm⟩⟩

/-- The names of a directory stand in byte order, each of them once. -/
theorem pairwise_names (fs : FileSystem) (place : Place) :
    (fs.names place).Pairwise (· < ·) := by
  rw [names]
  induction fs.entries.filterMap fun e => nameIn? place e.1 with
  | nil => exact .nil
  | cons n ns ih => exact pairwise_insertName n ih

/-! ## Following a path -/

/-- A piece that is looked up in a directory. -/
structure IsLookedUp (piece : Bytes) : Prop where
  ne_nil : piece ≠ []
  ne_dot : piece ≠ [Path.dot]
  ne_parent : piece ≠ [Path.dot, Path.dot]
  length_le : piece.length ≤ nameLimit

lemma isLookedUp {n : Bytes} (h : IsFileName n) : IsLookedUp n :=
  ⟨h.ne_nil, h.ne_dot, h.ne_parent, h.length_le⟩

/-- Where the pieces of a path lead from a place, through at most so many links, or why they lead
nowhere. Each constructor is one step. -/
inductive Leads (fs : FileSystem) (followLast : Bool) :
    Nat → Place → List Bytes → Except FileError Target → Prop
  | done (links : Nat) (place : Place) : Leads fs followLast links place [] (.ok (.found place))
  | notDirectory {links : Nat} {place : Place} {piece : Bytes} {rest : List Bytes}
      (hdir : fs.entry? place ≠ some .directory) :
      Leads fs followLast links place (piece :: rest) (.error .notADirectory)
  | stay {links : Nat} {place : Place} {piece : Bytes} {rest : List Bytes}
      {r : Except FileError Target} (hdir : fs.entry? place = some .directory)
      (hstay : piece = [] ∨ piece = [Path.dot]) (hrest : Leads fs followLast links place rest r) :
      Leads fs followLast links place (piece :: rest) r
  | up {links : Nat} {place : Place} {rest : List Bytes} {r : Except FileError Target}
      (hdir : fs.entry? place = some .directory)
      (hrest : Leads fs followLast links place.dropLast rest r) :
      Leads fs followLast links place ([Path.dot, Path.dot] :: rest) r
  /-- The name is too long. -/
  | tooLong {links : Nat} {place : Place} {piece : Bytes} {rest : List Bytes}
      (hdir : fs.entry? place = some .directory) (hstay : ¬ (piece = [] ∨ piece = [Path.dot]))
      (hup : piece ≠ [Path.dot, Path.dot]) (hlong : nameLimit < piece.length) :
      Leads fs followLast links place (piece :: rest) (.error .invalidFilename)
  | missing {links : Nat} {place : Place} {piece : Bytes} {rest : List Bytes}
      (hdir : fs.entry? place = some .directory) (hpiece : IsLookedUp piece)
      (hnone : fs.entry? (place ++ [piece]) = none) (hrest : rest ≠ []) :
      Leads fs followLast links place (piece :: rest) (.error .notFound)
  | vacant {links : Nat} {place : Place} {piece : Bytes}
      (hdir : fs.entry? place = some .directory) (hpiece : IsLookedUp piece)
      (hnone : fs.entry? (place ++ [piece]) = none) :
      Leads fs followLast links place [piece] (.ok (.vacant (place ++ [piece])))
  /-- A link is the last piece and is not followed. -/
  | lastLink {links : Nat} {place : Place} {piece : Bytes} {target : Path}
      (hdir : fs.entry? place = some .directory) (hpiece : IsLookedUp piece)
      (hlink : fs.entry? (place ++ [piece]) = some (.link target)) (hlast : followLast = false) :
      Leads fs followLast links place [piece] (.ok (.found (place ++ [piece])))
  /-- There are too many links. -/
  | loop {place : Place} {piece : Bytes} {rest : List Bytes} {target : Path}
      (hdir : fs.entry? place = some .directory) (hpiece : IsLookedUp piece)
      (hlink : fs.entry? (place ++ [piece]) = some (.link target))
      (hlast : ¬ (rest = [] ∧ followLast = false)) :
      Leads fs followLast 0 place (piece :: rest) (.error .filesystemLoop)
  | link {links : Nat} {place : Place} {piece : Bytes} {rest : List Bytes} {target : Path}
      {r : Except FileError Target} (hdir : fs.entry? place = some .directory)
      (hpiece : IsLookedUp piece) (hlink : fs.entry? (place ++ [piece]) = some (.link target))
      (hlast : ¬ (rest = [] ∧ followLast = false))
      (hrest : Leads fs followLast links (if target.isAbsolute then [] else place)
        (target.segments ++ rest) r) :
      Leads fs followLast (links + 1) place (piece :: rest) r
  /-- The name is that of a file or of a directory. -/
  | name {links : Nat} {place : Place} {piece : Bytes} {rest : List Bytes} {e : Entry}
      {r : Except FileError Target} (hdir : fs.entry? place = some .directory)
      (hpiece : IsLookedUp piece) (he : fs.entry? (place ++ [piece]) = some e)
      (hlink : ∀ target, e ≠ .link target)
      (hrest : Leads fs followLast links (place ++ [piece]) rest r) :
      Leads fs followLast links place (piece :: rest) r

lemma leads_followPieces {followLast : Bool} {links : Nat}
    {jump : Place → List Bytes → Except FileError Target}
    (hjump : ∀ {place piece rest target}, fs.entry? place = some .directory → IsLookedUp piece →
      fs.entry? (place ++ [piece]) = some (.link target) → ¬ (rest = [] ∧ followLast = false) →
      fs.Leads followLast links place (piece :: rest)
        (jump (if target.isAbsolute then [] else place) (target.segments ++ rest)))
    (place : Place) (pieces : List Bytes) :
    fs.Leads followLast links place pieces (fs.followPieces followLast jump place pieces) := by
  have hpiece : ∀ {piece : Bytes}, ¬ (piece = [] ∨ piece = [Path.dot]) →
      piece ≠ [Path.dot, Path.dot] → ¬ nameLimit < piece.length → IsLookedUp piece :=
    fun hstay hup hlong =>
      ⟨fun h => hstay (.inl h), fun h => hstay (.inr h), hup, Nat.not_lt.1 hlong⟩
  fun_induction followPieces fs followLast jump place pieces with
  | case1 place => exact .done links place
  | case2 place piece rest hdir => exact .notDirectory hdir
  | case3 place piece rest hdir hstay ih => exact .stay (not_not.1 hdir) hstay ih
  | case4 place rest hdir hstay ih => exact .up (not_not.1 hdir) ih
  | case5 place piece rest hdir hstay hup hlong => exact .tooLong (not_not.1 hdir) hstay hup hlong
  | case6 place piece hdir hstay hup hlong hnone =>
    exact .vacant (not_not.1 hdir) (hpiece hstay hup hlong) hnone
  | case7 place piece rest hdir hstay hup hlong hnone hrest =>
    exact .missing (not_not.1 hdir) (hpiece hstay hup hlong) hnone hrest
  | case8 place piece rest hdir hstay hup hlong target hlink hlast =>
    obtain ⟨rfl, rfl⟩ := hlast
    exact .lastLink (not_not.1 hdir) (hpiece hstay hup hlong) hlink rfl
  | case9 place piece rest hdir hstay hup hlong target hlink hlast =>
    exact hjump (not_not.1 hdir) (hpiece hstay hup hlong) hlink hlast
  | case10 place piece rest hdir hstay hup hlong e hlink he ih =>
    exact .name (not_not.1 hdir) (hpiece hstay hup hlong) he (fun target he => hlink target he) ih

lemma leads_follow (fs : FileSystem) (followLast : Bool) (links : Nat) (place : Place)
    (pieces : List Bytes) :
    fs.Leads followLast links place pieces (fs.follow followLast links place pieces) := by
  induction links generalizing place pieces with
  | zero => exact leads_followPieces .loop place pieces
  | succ links ih =>
    exact leads_followPieces (fun hdir hpiece hlink hlast => .link hdir hpiece hlink hlast (ih _ _))
      place pieces

lemma Leads.unique {followLast : Bool} {links : Nat} {place : Place} {pieces : List Bytes}
    {r r' : Except FileError Target} (h : fs.Leads followLast links place pieces r)
    (h' : fs.Leads followLast links place pieces r') : r = r' := by
  induction h generalizing r' with
  | done => cases h'; rfl
  | _ => cases h' <;> grind [IsLookedUp]

/-- A path is followed by these steps, and by no others. -/
theorem follow_eq_iff {followLast : Bool} {links : Nat} {place : Place} {pieces : List Bytes}
    {r : Except FileError Target} :
    fs.follow followLast links place pieces = r ↔ fs.Leads followLast links place pieces r :=
  ⟨fun h => h ▸ leads_follow .., (leads_follow ..).unique⟩

/-- Where the first pieces lead to a place, the others are followed from there. A link at the end of
the first pieces is followed when others come behind it. -/
lemma Leads.append {links : Nat} {place q : Place} {pieces : List Bytes}
    (h : fs.Leads true links place pieces (.ok (.found q))) :
    ∃ left, ∀ {followLast more r}, followLast = true ∨ more ≠ [] →
      fs.Leads followLast left q more r → fs.Leads followLast links place (pieces ++ more) r := by
  generalize hr : (.ok (.found q) : Except FileError Target) = r at h
  induction h with
  | done links place =>
    cases hr
    exact ⟨links, fun _ h => h⟩
  | stay hdir hstay _ ih =>
    obtain ⟨left, hleft⟩ := ih hr
    exact ⟨left, fun hmore h => .stay hdir hstay (hleft hmore h)⟩
  | up hdir _ ih =>
    obtain ⟨left, hleft⟩ := ih hr
    exact ⟨left, fun hmore h => .up hdir (hleft hmore h)⟩
  | link hdir hpiece hlink _ _ ih =>
    obtain ⟨left, hleft⟩ := ih hr
    refine ⟨left, fun {followLast more r} hmore h => .link hdir hpiece hlink ?_ ?_⟩
    · rintro ⟨hnil, rfl⟩
      exact hmore.resolve_left Bool.false_ne_true (List.append_eq_nil_iff.1 hnil).2
    · have hrest := hleft hmore h
      rw [List.append_assoc] at hrest
      exact hrest
  | name hdir hpiece he hlink _ ih =>
    obtain ⟨left, hleft⟩ := ih hr
    exact ⟨left, fun hmore h => .name hdir hpiece he hlink (hleft hmore h)⟩
  | lastLink _ _ _ hlast => cases hlast
  | _ => cases hr

/-- Where all pieces can be followed, the first of them lead to a place from which the others can
be. -/
lemma Leads.exists_of_append {links : Nat} {place : Place} {t : Target} {pieces more : List Bytes}
    (hmore : more ≠ []) (h : fs.Leads true links place (pieces ++ more) (.ok t)) :
    ∃ q left, fs.Leads true links place pieces (.ok (.found q)) ∧
      fs.Leads true left q more (.ok t) := by
  generalize hall : pieces ++ more = all at h
  generalize hr : (.ok t : Except FileError Target) = r at h
  induction h generalizing pieces with
  | done => exact absurd (List.append_eq_nil_iff.1 hall).2 hmore
  | stay hdir hstay hrest ih =>
    cases pieces with
    | nil => cases hall; cases hr; exact ⟨_, _, .done _ _, .stay hdir hstay hrest⟩
    | cons piece pieces =>
      cases hall
      obtain ⟨q, left, hq, hmore⟩ := ih rfl hr
      exact ⟨q, left, .stay hdir hstay hq, hmore⟩
  | up hdir hrest ih =>
    cases pieces with
    | nil => cases hall; cases hr; exact ⟨_, _, .done _ _, .up hdir hrest⟩
    | cons piece pieces =>
      cases hall
      obtain ⟨q, left, hq, hmore⟩ := ih rfl hr
      exact ⟨q, left, .up hdir hq, hmore⟩
  | vacant hdir hpiece hnone =>
    cases pieces with
    | nil => cases hall; cases hr; exact ⟨_, 0, .done _ _, .vacant hdir hpiece hnone⟩
    | cons piece pieces => simp_all
  | link hdir hpiece hlink hlast hrest ih =>
    cases pieces with
    | nil => cases hall; cases hr; exact ⟨_, _, .done _ _, .link hdir hpiece hlink hlast hrest⟩
    | cons piece pieces =>
      cases hall
      obtain ⟨q, left, hq, hmore⟩ := ih (List.append_assoc ..) hr
      exact ⟨q, left, .link hdir hpiece hlink (by simp) hq, hmore⟩
  | name hdir hpiece he hlink hrest ih =>
    cases pieces with
    | nil => cases hall; cases hr; exact ⟨_, _, .done _ _, .name hdir hpiece he hlink hrest⟩
    | cons piece pieces =>
      cases hall
      obtain ⟨q, left, hq, hmore⟩ := ih rfl hr
      exact ⟨q, left, .name hdir hpiece he hlink hq, hmore⟩
  | lastLink _ _ _ hlast => cases hlast
  | _ => cases hr

/-- Only from a directory can a piece be followed. -/
lemma Leads.entry?_eq {links : Nat} {place : Place} {piece : Bytes} {rest : List Bytes}
    {t : Target} {followLast : Bool}
    (h : fs.Leads followLast links place (piece :: rest) (.ok t)) :
    fs.entry? place = some .directory := by
  cases h <;> assumption

lemma resolve_eq_ok_iff {p : Path} {place : Place} :
    fs.resolve p = .ok place ↔ fs.target true p = .ok (.found place) := by
  unfold resolve
  split <;> grind

lemma target_eq_ok_iff {followLast : Bool} {p : Path} {t : Target} :
    fs.target followLast p = .ok t ↔ p.bytes ≠ [] ∧ p.bytes.contains 0 = false ∧
      fs.Leads followLast linkLimit (if p.isAbsolute then [] else fs.current) p.segments
        (.ok t) := by
  unfold target
  by_cases hne : p.bytes = []
  · simp [hne]
  · cases hnul : p.bytes.contains 0 <;> simp [hne, follow_eq_iff]

lemma bytes_ne_nil_of_target {followLast : Bool} {p : Path} {t : Target}
    (h : fs.target followLast p = .ok t) : p.bytes ≠ [] :=
  (target_eq_ok_iff.1 h).1

/-! ## Links at the end of a path -/

lemma Leads.of_ne_link {links : Nat} {place : Place} {pieces : List Bytes}
    {r : Except FileError Target} (h : fs.Leads false links place pieces r)
    (hend : ∀ q target, r = .ok (.found q) → fs.entry? q ≠ some (.link target)) :
    fs.Leads true links place pieces r := by
  induction h with
  | done links place => exact .done links place
  | notDirectory hdir => exact .notDirectory hdir
  | stay hdir hstay _ ih => exact .stay hdir hstay (ih hend)
  | up hdir _ ih => exact .up hdir (ih hend)
  | tooLong hdir hstay hup hlong => exact .tooLong hdir hstay hup hlong
  | missing hdir hpiece hnone hrest => exact .missing hdir hpiece hnone hrest
  | vacant hdir hpiece hnone => exact .vacant hdir hpiece hnone
  | lastLink hdir hpiece hlink hlast => exact absurd hlink (hend _ _ rfl)
  | loop hdir hpiece hlink hlast => exact .loop hdir hpiece hlink (by simp)
  | link hdir hpiece hlink hlast _ ih => exact .link hdir hpiece hlink (by simp) (ih hend)
  | name hdir hpiece he hlink _ ih => exact .name hdir hpiece he hlink (ih hend)

/-- A path that leads to no link leads to the same place whether a link at its end would be followed
or not. -/
theorem target_eq_of_not_isLink {p : Path} (h : ¬ fs.IsLink p) :
    fs.target false p = fs.target true p := by
  unfold target
  by_cases hne : p.bytes = []
  · rw [if_pos hne, if_pos hne]
  · rw [if_neg hne, if_neg hne]
    by_cases hnul : p.bytes.contains 0 = true
    · rw [if_pos hnul, if_pos hnul]
    · rw [if_neg hnul, if_neg hnul]
      refine (follow_eq_iff.2 ((leads_follow ..).of_ne_link fun q target hq he => ?_)).symm
      have hleads := target_eq_ok_iff.2 ⟨hne, by simpa using hnul, follow_eq_iff.1 hq⟩
      exact h ⟨q, target, hleads, he⟩

/-- What a path leads to is the place of the path, unless that is a link. -/
lemma resolve_of_target {p : Path} {q : Place} {e : Entry}
    (h : fs.target false p = .ok (.found q)) (he : fs.entry? q = some e)
    (hlink : ∀ target, e ≠ .link target) : fs.resolve p = .ok q := by
  have hend : ¬ fs.IsLink p := by
    rintro ⟨q', target, hq', htarget⟩
    cases h.symm.trans hq'
    exact hlink target (Option.some.inj (he.symm.trans htarget))
  rw [resolve_eq_ok_iff, ← target_eq_of_not_isLink hend, h]

/-- A path that leads anywhere has a place of its own, be it that of a link. -/
lemma exists_target_of_resolve {p : Path} {q : Place} {e : Entry} (h : fs.resolve p = .ok q)
    (he : fs.entry? q = some e) :
    ∃ start e', fs.target false p = .ok (.found start) ∧ fs.entry? start = some e' := by
  by_cases hlink : fs.IsLink p
  · obtain ⟨start, target, hstart, htarget⟩ := hlink
    exact ⟨start, .link target, hstart, htarget⟩
  · exact ⟨q, e, (target_eq_of_not_isLink hlink).trans (resolve_eq_ok_iff.1 h), he⟩

/-! ## Joining a name -/

/-- The start of a path without the empty piece behind a final separator. -/
lemma Leads.of_segments {links : Nat} {start place : Place} {pieces segments : List Bytes}
    (hseg : segments = pieces ∨ segments = pieces ++ [[]])
    (h : fs.Leads true links start segments (.ok (.found place))) :
    fs.Leads true links start pieces (.ok (.found place)) := by
  rcases hseg with rfl | rfl
  · exact h
  · obtain ⟨q, left, hq, hlast⟩ := h.exists_of_append (List.cons_ne_nil _ _)
    cases hlast.unique (.stay hlast.entry?_eq (.inl rfl) (.done left q))
    exact hq

/-- A name joined to a path is looked up in the directory that the path leads to. -/
lemma exists_leads_of_join {p : Path} {place : Place} {n : Bytes} (hn : IsFileName n)
    (h : fs.resolve p = .ok place) :
    ∃ left, ∀ {followLast t}, fs.Leads followLast left place [n] (.ok t) →
      fs.target followLast (p.join ⟨n⟩) = .ok t := by
  obtain ⟨hp, hnul, h⟩ := target_eq_ok_iff.1 (resolve_eq_ok_iff.1 h)
  obtain ⟨pieces, -, hseg, hjoin⟩ := Path.exists_segments_join hp
  obtain ⟨left, hleft⟩ := (h.of_segments hseg).append
  refine ⟨left, fun hlast => target_eq_ok_iff.2 ⟨Path.join_bytes_ne_nil p hn, ?_, ?_⟩⟩
  · rw [Path.contains_zero_join p hn, hnul]
  · rw [Path.isAbsolute_join p hn, hjoin n hn]
    exact hleft (.inr (List.cons_ne_nil _ _)) hlast

/-- Where a joined name leads anywhere, so does the path before it. -/
lemma exists_resolve_of_target_join {p : Path} (hp : p.bytes ≠ []) {n : Bytes} (hn : IsFileName n)
    {t : Target} (h : fs.target true (p.join ⟨n⟩) = .ok t) :
    ∃ place left, fs.resolve p = .ok place ∧ fs.Leads true left place [n] (.ok t) := by
  obtain ⟨pieces, -, hseg, hjoin⟩ := Path.exists_segments_join hp
  rw [target_eq_ok_iff, Path.contains_zero_join p hn, Path.isAbsolute_join p hn, hjoin n hn] at h
  obtain ⟨-, hnul, h⟩ := h
  obtain ⟨place, left, hplace, hlast⟩ := h.exists_of_append (List.cons_ne_nil _ _)
  refine ⟨place, left, resolve_eq_ok_iff.2 (target_eq_ok_iff.2 ⟨hp, hnul, ?_⟩), hlast⟩
  rcases hseg with hseg | hseg <;> rw [hseg]
  · exact hplace
  · obtain ⟨left, hleft⟩ := hplace.append
    exact hleft (.inl rfl) (.stay hlast.entry?_eq (.inl rfl) (.done left place))

/-- A name in a directory has its place there. -/
theorem target_join {p : Path} {place : Place} {n : Bytes} (hn : IsFileName n)
    (hp : fs.resolve p = .ok place) (hdir : fs.entry? place = some .directory) {e : Entry}
    (he : fs.entry? (place ++ [n]) = some e) :
    fs.target false (p.join ⟨n⟩) = .ok (.found (place ++ [n])) := by
  obtain ⟨left, hleft⟩ := exists_leads_of_join hn hp
  refine hleft ?_
  cases e with
  | link target => exact .lastLink hdir (isLookedUp hn) he rfl
  | file content => exact .name hdir (isLookedUp hn) he nofun (.done _ _)
  | directory => exact .name hdir (isLookedUp hn) he nofun (.done _ _)

/-- A name leads to the entry itself, unless that is a link. -/
theorem resolve_join {p : Path} {place : Place} {n : Bytes} (hn : IsFileName n)
    (hp : fs.resolve p = .ok place) (hdir : fs.entry? place = some .directory) {e : Entry}
    (he : fs.entry? (place ++ [n]) = some e) (hlink : ∀ target, e ≠ .link target) :
    fs.resolve (p.join ⟨n⟩) = .ok (place ++ [n]) :=
  resolve_of_target (target_join hn hp hdir he) he hlink

/-- Where a joined name can be looked up, the path before it leads to a directory with an entry of
that name. -/
theorem exists_resolve_of_join {p : Path} (hp : p.bytes ≠ []) {n : Bytes} (hn : IsFileName n)
    {q : Place} (h : fs.resolve (p.join ⟨n⟩) = .ok q) :
    ∃ place, fs.resolve p = .ok place ∧ fs.entry? place = some .directory ∧
      n ∈ fs.names place := by
  obtain ⟨place, left, hplace, hlast⟩ :=
    exists_resolve_of_target_join hp hn (resolve_eq_ok_iff.1 h)
  refine ⟨place, hplace, hlast.entry?_eq, mem_names_iff.2 ?_⟩
  cases hlast with
  | stay _ hstay => exact absurd hstay (by simp [hn.ne_nil, hn.ne_dot])
  | up => exact absurd rfl hn.ne_parent
  | lastLink _ _ _ hlast => cases hlast
  | link _ _ hlink => simp [hlink]
  | name _ _ he => simp [he]

/-- On the way to a directory there are only directories. -/
lemma resolve_of_below {p : Path} (hp : p.bytes ≠ []) {names : List Bytes}
    (hnames : ∀ n ∈ names, IsFileName n) {q : Place} (h : fs.resolve (p.below names) = .ok q)
    (hdir : fs.entry? q = some .directory) :
    ∃ place, fs.resolve p = .ok place ∧ fs.entry? place = some .directory := by
  induction names generalizing p with
  | nil => exact ⟨q, h, hdir⟩
  | cons n names ih =>
    have hn := hnames n List.mem_cons_self
    obtain ⟨below, hbelow, -⟩ := ih (Path.join_bytes_ne_nil p hn)
      (fun m hm => hnames m (List.mem_cons_of_mem _ hm)) h
    obtain ⟨place, hplace, hdir, -⟩ := exists_resolve_of_join hp hn hbelow
    exact ⟨place, hplace, hdir⟩

/-! ## What a place holds -/

lemma isFile_iff {p : Path} :
    fs.isFile p = true ↔
      ∃ q content, fs.resolve p = .ok q ∧ fs.entry? q = some (.file content) := by
  unfold isFile look
  cases fs.resolve p with
  | error e => simp
  | ok q =>
    cases hq : fs.entry? q with
    | none => simp [hq]
    | some e => cases e <;> simp [hq]

lemma isDirectory_iff {p : Path} :
    fs.isDirectory p = true ↔ ∃ q, fs.resolve p = .ok q ∧ fs.entry? q = some .directory := by
  unfold isDirectory look
  cases fs.resolve p with
  | error e => simp
  | ok q =>
    cases hq : fs.entry? q with
    | none => simp [hq]
    | some e => cases e <;> simp [hq]

/-- What is read is the content of a file, one that may be read. -/
lemma read_eq_ok_iff {p : Path} {content : Bytes} :
    fs.read p = .ok content ↔
      ∃ q, fs.resolve p = .ok q ∧ q ∉ fs.unreadable ∧ fs.entry? q = some (.file content) := by
  unfold read
  cases fs.resolve p with
  | error e => simp
  | ok q =>
    by_cases hclosed : q ∈ fs.unreadable
    · simp [hclosed]
    · rcases hq : fs.entry? q with _ | _ | _ | _ <;> simp [hclosed, hq]

/-- A text that was written is the one that is read. -/
lemma readText_of_read {p : Path} {text : String} (h : fs.read p = .ok (Utf8.encode text)) :
    fs.readText p = .ok text := by
  rw [readText, h]
  simp only [Utf8.decode?_encode, Option.elim]

/-- What is there is the root or one of the entries. -/
lemma root_or_mem_entries {place : Place} {e : Entry} (h : fs.entry? place = some e) :
    place = [] ∧ e = .directory ∨ (place, e) ∈ fs.entries := by
  unfold entry? at h
  split_ifs at h with hroot
  · exact .inl ⟨hroot, (Option.some.inj h).symm⟩
  · obtain ⟨front, back, heq, -⟩ := List.lookup_eq_some_iff.1 h
    exact .inr (by simp [heq])

namespace WellFormed

/-- The names of a place are those of entries. -/
lemma isFileName_of_entry (hfs : fs.WellFormed) {place : Place} {e : Entry}
    (h : fs.entry? place = some e) : ∀ n ∈ place, IsFileName n := by
  rcases root_or_mem_entries h with ⟨rfl, -⟩ | he
  · simp
  · exact hfs.isFileName _ he

lemma isFileName_of_mem_names (hfs : fs.WellFormed) {place : Place} {n : Bytes}
    (h : n ∈ fs.names place) : IsFileName n := by
  rw [mem_names_iff, entry?_concat, List.lookup_isSome_iff] at h
  obtain ⟨e, he, heq⟩ := h
  apply hfs.isFileName e he n
  rw [← eq_of_beq heq]
  simp

lemma entry?_of_mem_names (hfs : fs.WellFormed) {place : Place} {n : Bytes}
    (h : n ∈ fs.names place) : fs.entry? place = some .directory := by
  rw [mem_names_iff, entry?_concat, List.lookup_isSome_iff] at h
  obtain ⟨e, he, heq⟩ := h
  have := hfs.inDirectory e he
  rwa [← eq_of_beq heq, List.dropLast_concat] at this

lemma entry?_dropLast (hfs : fs.WellFormed) {place : Place} {e : Entry}
    (h : fs.entry? place = some e) : fs.entry? place.dropLast = some .directory := by
  rcases root_or_mem_entries h with ⟨rfl, -⟩ | he
  · rfl
  · exact hfs.inDirectory _ he

/-- A path that can be looked up leads to a file or to a directory. -/
lemma entry?_of_leads (hfs : fs.WellFormed) {links : Nat} {place q : Place} {pieces : List Bytes}
    (hplace : pieces = [] → ∃ e, fs.entry? place = some e ∧ ∀ target, e ≠ .link target)
    (h : fs.Leads true links place pieces (.ok (.found q))) :
    ∃ e, fs.entry? q = some e ∧ ∀ target, e ≠ .link target := by
  generalize hr : (.ok (.found q) : Except FileError Target) = r at h
  induction h with
  | done =>
    cases hr
    exact hplace rfl
  | stay hdir _ _ ih => exact ih (fun _ => ⟨.directory, hdir, nofun⟩) hr
  | up hdir _ ih => exact ih (fun _ => ⟨.directory, hfs.entry?_dropLast hdir, nofun⟩) hr
  | link _ _ _ _ _ ih =>
    exact ih (fun hnil => absurd (List.append_eq_nil_iff.1 hnil).1 (cut_ne_nil _ _)) hr
  | name _ _ he hlink _ ih => exact ih (fun _ => ⟨_, he, hlink⟩) hr
  | lastLink _ _ _ hlast => cases hlast
  | _ => cases hr

lemma entry?_of_resolve (hfs : fs.WellFormed) {p : Path} {q : Place}
    (h : fs.resolve p = .ok q) : ∃ e, fs.entry? q = some e ∧ ∀ target, e ≠ .link target := by
  obtain ⟨-, -, h⟩ := target_eq_ok_iff.1 (resolve_eq_ok_iff.1 h)
  exact hfs.entry?_of_leads (fun hnil => absurd hnil (cut_ne_nil _ _)) h

end WellFormed

end StyleGuide.FileSystem
