import Mathlib.Data.List.Sort
import StyleGuide.Proofs.FileSystem.Fault

/-!
# What does not depend on the content of files

A path leads to the same place in two file systems that differ in the content of files alone, with
the same links on the way. Where the same directories may be read in both, a walk meets the same.

## Main definitions

* `FileSystem.Entry.shape`: what stands at a place, whatever a file holds.
* `FileSystem.SameEntries`: file systems with the same entries, but for the content of files.
* `FileSystem.SameShape`: the same, with the same directories that may be read.
* `FileSystem.opened`: the file system with everything readable.

## Main results

* `FileSystem.SameEntries.resolve`, `FileSystem.SameEntries.pathExists`: paths lead to the same.
* `FileSystem.SameShape.walk`: walks list the same files, or end for the same reason.
-/

namespace StyleGuide.FileSystem

/-- What stands at a place, whatever a file holds. -/
def Entry.shape : Entry → Entry
  | .file _ => .file []
  | e => e

/-- The file systems have the same places, of the same kinds and with the same links, and programs
start in the same directory. -/
structure SameEntries (fs fs' : FileSystem) : Prop where
  entry? : ∀ place, (fs.entry? place).map Entry.shape = (fs'.entry? place).map Entry.shape
  current : fs.current = fs'.current

/-- The file systems differ in what files hold, and in which files may be read. -/
structure SameShape (fs fs' : FileSystem) : Prop extends SameEntries fs fs' where
  closed : ∀ place, fs.entry? place = some .directory →
    (place ∈ fs.unreadable ↔ place ∈ fs'.unreadable)

namespace SameEntries

variable {fs fs' : FileSystem}

lemma symm (h : SameEntries fs fs') : SameEntries fs' fs :=
  ⟨fun place => (h.entry? place).symm, h.current.symm⟩

/-- At each place there is the same, or there are two files. -/
lemma eq_or_files (h : SameEntries fs fs') (place : Place) :
    fs.entry? place = fs'.entry? place ∨
      ∃ content content', fs.entry? place = some (.file content) ∧
        fs'.entry? place = some (.file content') := by
  have hshape := h.entry? place
  generalize fs.entry? place = e at hshape ⊢
  generalize fs'.entry? place = e' at hshape ⊢
  rcases e with _ | _ | _ | _ <;> rcases e' with _ | _ | _ | _ <;>
    simp_all [Entry.shape]

/-- Nothing, a directory and a link stand in the same places. -/
lemma entry?_eq_iff (h : SameEntries fs fs') {place : Place} {e : Option Entry}
    (he : ∀ content, e ≠ some (.file content)) : fs.entry? place = e ↔ fs'.entry? place = e := by
  rcases h.eq_or_files place with heq | ⟨content, content', hfs, hfs'⟩
  · rw [heq]
  · rw [hfs, hfs']
    exact iff_of_false (he content).symm (he content').symm

/-! ## Paths -/

/-- Following a path asks only for directories and links. -/
theorem leads (h : SameEntries fs fs') {followLast : Bool} {links : Nat} {place : Place}
    {pieces : List Bytes} {r : Except FileError Target}
    (hleads : fs.Leads followLast links place pieces r) :
    fs'.Leads followLast links place pieces r := by
  have hsame : ∀ {place : Place} {e : Option Entry}, (∀ content, e ≠ some (.file content)) →
      fs.entry? place = e → fs'.entry? place = e := fun he => (h.entry?_eq_iff he).1
  induction hleads with
  | done links place => exact .done links place
  | notDirectory hdir => exact .notDirectory (mt (h.entry?_eq_iff (by simp)).2 hdir)
  | stay hdir hstay _ ih => exact .stay (hsame (by simp) hdir) hstay ih
  | up hdir _ ih => exact .up (hsame (by simp) hdir) ih
  | tooLong hdir hstay hup hlong => exact .tooLong (hsame (by simp) hdir) hstay hup hlong
  | missing hdir hpiece hnone hrest =>
    exact .missing (hsame (by simp) hdir) hpiece (hsame (by simp) hnone) hrest
  | vacant hdir hpiece hnone =>
    exact .vacant (hsame (by simp) hdir) hpiece (hsame (by simp) hnone)
  | lastLink hdir hpiece hlink hlast =>
    exact .lastLink (hsame (by simp) hdir) hpiece (hsame (by simp) hlink) hlast
  | loop hdir hpiece hlink hlast =>
    exact .loop (hsame (by simp) hdir) hpiece (hsame (by simp) hlink) hlast
  | link hdir hpiece hlink hlast _ ih =>
    exact .link (hsame (by simp) hdir) hpiece (hsame (by simp) hlink) hlast ih
  | @name _ place piece _ e _ hdir hpiece he hlink _ ih =>
    rcases h.eq_or_files (place ++ [piece]) with heq | ⟨content, content', -, hfs'⟩
    · exact .name (hsame (by simp) hdir) hpiece (heq ▸ he) hlink ih
    · exact .name (hsame (by simp) hdir) hpiece hfs' nofun ih

theorem follow (h : SameEntries fs fs') (followLast : Bool) (links : Nat) (place : Place)
    (pieces : List Bytes) :
    fs.follow followLast links place pieces = fs'.follow followLast links place pieces :=
  follow_eq_iff.2 (h.symm.leads (leads_follow ..))

theorem target (h : SameEntries fs fs') (followLast : Bool) (p : Path) :
    fs.target followLast p = fs'.target followLast p := by
  simp only [FileSystem.target, h.follow, h.current]

theorem resolve (h : SameEntries fs fs') (p : Path) : fs.resolve p = fs'.resolve p := by
  simp only [FileSystem.resolve, h.target]

/-- A path leads to the same, or to two files. -/
lemma look_eq_or_files (h : SameEntries fs fs') (p : Path) :
    fs.look p = fs'.look p ∨
      ∃ content content', fs.look p = .ok (.file content) ∧ fs'.look p = .ok (.file content') := by
  unfold look
  rw [h.resolve]
  cases fs'.resolve p with
  | error e => exact .inl rfl
  | ok place =>
    rcases h.eq_or_files place with heq | ⟨content, content', hfs, hfs'⟩
    · exact .inl (by simp only [heq])
    · exact .inr ⟨content, content', by simp only [hfs]; rfl, by simp only [hfs']; rfl⟩

theorem pathExists (h : SameEntries fs fs') (p : Path) : fs.pathExists p = fs'.pathExists p := by
  unfold FileSystem.pathExists
  rcases h.look_eq_or_files p with heq | ⟨content, content', hfs, hfs'⟩
  · rw [heq]
  · rw [hfs, hfs']
    rfl

theorem isFile (h : SameEntries fs fs') (p : Path) : fs.isFile p = fs'.isFile p := by
  unfold FileSystem.isFile
  rcases h.look_eq_or_files p with heq | ⟨content, content', hfs, hfs'⟩
  · rw [heq]
  · rw [hfs, hfs']

theorem isDirectory (h : SameEntries fs fs') (p : Path) : fs.isDirectory p = fs'.isDirectory p := by
  unfold FileSystem.isDirectory
  rcases h.look_eq_or_files p with heq | ⟨content, content', hfs, hfs'⟩
  · rw [heq]
  · rw [hfs, hfs']

lemma names (h : SameEntries fs fs') (place : Place) : fs.names place = fs'.names place := by
  refine (pairwise_names fs place).eq_of_mem_iff (pairwise_names fs' place) fun n => ?_
  rw [mem_names_iff, mem_names_iff, ← Option.isSome_map (f := Entry.shape), h.entry?,
    Option.isSome_map]

end SameEntries

/-- The file system in which all files are empty. -/
def emptied (fs : FileSystem) : FileSystem :=
  { fs with entries := fs.entries.map fun e => (e.1, e.2.shape) }

lemma entry?_emptied (fs : FileSystem) (place : Place) :
    fs.emptied.entry? place = (fs.entry? place).map Entry.shape := by
  by_cases hroot : place = []
  · subst hroot
    rfl
  · unfold entry?
    rw [if_neg hroot, if_neg hroot, emptied]
    induction fs.entries with
    | nil => rfl
    | cons e es ih =>
      rw [List.map_cons, List.lookup_cons, List.lookup_cons]
      cases place == e.1 with
      | true => rfl
      | false => exact ih

lemma sameShape_emptied (fs : FileSystem) : fs.SameShape fs.emptied where
  entry? place := by
    rw [entry?_emptied, Option.map_map]
    congr 1
    funext e
    cases e <;> rfl
  current := rfl
  closed _ _ := .rfl

/-- A file is found where it would be if it were empty. -/
lemma read_of_resolve_emptied {fs : FileSystem} {p : Path} {q : Place} {content : Bytes}
    (hq : fs.emptied.resolve p = .ok q) (hopen : q ∉ fs.unreadable)
    (he : fs.entry? q = some (.file content)) : fs.read p = .ok content :=
  read_eq_ok_iff.2 ⟨q, (fs.sameShape_emptied.resolve p).trans hq, hopen, he⟩

/-- The file system in which everything may be read. -/
def opened (fs : FileSystem) : FileSystem := { fs with unreadable := [] }

lemma sameEntries_opened (fs : FileSystem) : SameEntries fs fs.opened := ⟨fun _ => rfl, rfl⟩

lemma WellFormed.opened {fs : FileSystem} (h : fs.WellFormed) : fs.opened.WellFormed :=
  ⟨h.isFileName, h.inDirectory, h.link_no_nul⟩

/-! ## Walks -/

namespace SameShape

variable {fs fs' : FileSystem}

lemma symm (h : SameShape fs fs') : SameShape fs' fs where
  toSameEntries := h.toSameEntries.symm
  closed place hdir := (h.closed place ((h.entry?_eq_iff (by simp)).2 hdir)).symm

/-- What a name leads to asks only for directories and links. -/
lemma lookInto (h : SameShape fs fs') (visits : List Visit) (path : Path) (place : Place) :
    fs.lookInto visits path place = fs'.lookInto visits path place := by
  unfold FileSystem.lookInto
  rw [h.resolve]
  rcases h.eq_or_files place with heq | ⟨content, content', hfs, hfs'⟩
  · rw [heq]
    cases fs'.resolve path with
    | error e => rfl
    | ok real =>
      by_cases hdir : fs.entry? real = some .directory
      · have hdir' := (h.entry?_eq_iff (by simp)).1 hdir
        simp only [hdir, hdir', h.closed real hdir]
      · rcases h.eq_or_files real with heq' | ⟨content, content', hfs, hfs'⟩
        · simp only [← heq']
        · simp only [hfs, hfs']
  · rw [hfs, hfs']

/-- A walk meets the same in both. -/
lemma meets (h : SameShape fs fs') {allowed : Bytes → Bool} {outer : List Visit} {visit : Visit}
    {names : List Bytes} {r : Except WalkError Unit}
    (hdir : fs.entry? visit.place = some .directory)
    (hmeets : Meets fs allowed outer visit names r) : Meets fs' allowed outer visit names r := by
  induction hmeets with
  | closed hclosed => exact .closed ((h.closed _ hdir).1 hclosed)
  | error hopen hn he =>
    exact .error (mt (h.closed _ hdir).2 hopen) (h.names _ ▸ hn) (h.lookInto .. ▸ he)
  | file hopen hn hallowed hfile =>
    exact .file (mt (h.closed _ hdir).2 hopen) (h.names _ ▸ hn) hallowed (h.lookInto .. ▸ hfile)
  | inside hopen hn hallowed henter _ ih =>
    exact .inside (mt (h.closed _ hdir).2 hopen) (h.names _ ▸ hn) hallowed (h.lookInto .. ▸ henter)
      (ih (entry?_of_lookInto henter))

lemma meetsFrom (h : SameShape fs fs') {allowed : Bytes → Bool} {root : Path} {names : List Bytes}
    {r : Except WalkError Unit} (hmeets : MeetsFrom fs allowed root names r) :
    MeetsFrom fs' allowed root names r := by
  cases hmeets with
  | error hstart he => exact .error (h.target .. ▸ hstart) (h.lookInto .. ▸ he)
  | inside hstart henter hmeets =>
    exact .inside (h.target .. ▸ hstart) (h.lookInto .. ▸ henter)
      (h.meets (entry?_of_lookInto henter) hmeets)

/-- Walks list the same files, or end for the same reason, however deep the file systems are. -/
theorem walk (h : SameShape fs fs') (allowed : Bytes → Bool) (root : Path) :
    fs.walk allowed root = fs'.walk allowed root := by
  cases hroot : fs.target false root with
  | error e => rw [FileSystem.walk, FileSystem.walk, ← h.target, hroot]
  | ok t =>
    cases t with
    | vacant place => rw [FileSystem.walk, FileSystem.walk, ← h.target, hroot]
    | found start =>
      obtain ⟨evs, hwalk, hsorted, hmem⟩ := walk_eq_mapM allowed hroot
      obtain ⟨evs', hwalk', hsorted', hmem'⟩ := walk_eq_mapM allowed (h.target .. ▸ hroot)
      have hevs : evs = evs' := by
        have : Std.Irrefl fun a b : Event => a.1 < b.1 := ⟨fun a => List.lt_irrefl a.1⟩
        refine hsorted.eq_of_mem_iff hsorted' fun ev => ?_
        obtain ⟨names, r⟩ := ev
        rw [hmem, hmem']
        exact ⟨h.meetsFrom, h.symm.meetsFrom⟩
      rw [hwalk, hwalk', hevs]

end SameShape

end StyleGuide.FileSystem
