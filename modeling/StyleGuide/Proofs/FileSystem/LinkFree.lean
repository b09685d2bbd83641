import StyleGuide.Proofs.FileSystem.Fault

/-!
# File systems without links

Without links nothing but `..` leads away from the way that a path is written in, so the place of a
path is read off its components, and a walk has nothing to fail at but directories that may not be
read.

## Main definitions

* `FileSystem.LinkFree`: no entry is a link.
* `FileSystem.enter`: the place that one more component leads to.

## Main results

* `FileSystem.LinkFree.resolve_below_iff`: names lead to the place that they spell.
* `FileSystem.LinkFree.resolve_normalize`: a path and its normal form lead to the same place.
* `FileSystem.LinkFree.mem_walk_iff`: a walk lists the files by their places.
* `FileSystem.LinkFree.not_fault`: it comes to no fault where everything may be read.
-/

namespace StyleGuide.FileSystem

/-- No entry is a link. -/
def LinkFree (fs : FileSystem) : Prop := ∀ e ∈ fs.entries, ∀ target, e.2 ≠ .link target

instance (fs : FileSystem) : Decidable fs.LinkFree :=
  decidable_of_iff (∀ e ∈ fs.entries, (match e.2 with | .link _ => false | _ => true) = true) <| by
    refine forall₂_congr fun e _ => ?_
    cases e.2 <;> simp

variable {fs : FileSystem} {allowed : Bytes → Bool}

lemma LinkFree.link_no_nul (h : fs.LinkFree) :
    ∀ e ∈ fs.entries, ∀ target, e.2 = .link target → 0 ∉ target.bytes :=
  fun e he target htarget => absurd htarget (h e he target)

lemma LinkFree.ne_link (h : fs.LinkFree) {place : Place} {e : Entry}
    (he : fs.entry? place = some e) (target : Path) : e ≠ .link target := by
  rcases root_or_mem_entries he with ⟨-, rfl⟩ | he
  · simp
  · exact h _ he target

/-- Only directories have anything below them. -/
lemma entry?_of_append (hfs : fs.WellFormed) {place names : Place} (hne : names ≠ []) {e : Entry}
    (h : fs.entry? (place ++ names) = some e) : fs.entry? place = some .directory := by
  induction names using List.reverseRecOn generalizing e with
  | nil => exact absurd rfl hne
  | append_singleton names n ih =>
    rw [← List.append_assoc] at h
    have hdir : fs.entry? (place ++ names) = some .directory := by
      simpa using hfs.entry?_dropLast h
    by_cases hnames : names = []
    · simpa [hnames] using hdir
    · exact ih hnames hdir

lemma exists_entry?_of_append (hfs : fs.WellFormed) {place names : Place} {e : Entry}
    (h : fs.entry? (place ++ names) = some e) : ∃ e', fs.entry? place = some e' := by
  by_cases hnames : names = []
  · exact ⟨e, by simpa [hnames] using h⟩
  · exact ⟨_, entry?_of_append hfs hnames h⟩

/-! ## Names that are looked up -/

lemma leads_of_resolve {p : Path} {q : Place} (h : fs.resolve p = .ok q) :
    0 ∉ p.bytes ∧ fs.Leads true linkLimit (if p.isAbsolute then [] else fs.current) p.segments
      (.ok (.found q)) := by
  obtain ⟨-, hnul, hleads⟩ := target_eq_ok_iff.1 (resolve_eq_ok_iff.1 h)
  exact ⟨by simpa using hnul, hleads⟩

lemma length_le_of_leads {links : Nat} {place q : Place} {pieces : List Bytes}
    (h : fs.Leads true links place pieces (.ok (.found q))) {n : Bytes} (hn : n ∈ pieces)
    (hname : Path.Component.ofSegment? n = some (.name n)) : n.length ≤ nameLimit := by
  have hne := (Path.ofSegment?_eq_name_iff.1 hname).2
  generalize hr : (.ok (.found q) : Except FileError Target) = r at h
  induction h with
  | done => cases hn
  | stay _ hstay _ ih =>
    rcases List.mem_cons.1 hn with rfl | hn
    · grind
    · exact ih hn hr
  | up _ _ ih =>
    rcases List.mem_cons.1 hn with rfl | hn
    · exact absurd rfl hne.2.2
    · exact ih hn hr
  | lastLink _ _ _ hlast => cases hlast
  | link _ hpiece _ _ _ ih =>
    rcases List.mem_cons.1 hn with rfl | hn
    · exact hpiece.length_le
    · exact ih (List.mem_append_right _ hn) hr
  | name _ hpiece _ _ _ ih =>
    rcases List.mem_cons.1 hn with rfl | hn
    · exact hpiece.length_le
    · exact ih hn hr
  | _ => cases hr

/-- Only names of entries are on a path that leads anywhere. -/
lemma isFileName_of_mem_parts {p : Path} {q : Place} (h : fs.resolve p = .ok q) {n : Bytes}
    (hn : .name n ∈ p.parts) : IsFileName n := by
  obtain ⟨hnul, hleads⟩ := leads_of_resolve h
  obtain ⟨hmem, hne⟩ := Path.name_mem_parts_iff.1 hn
  refine ⟨hne.1, hne.2.1, hne.2.2, fun hslash => ?_, fun hzero => hnul (mem_of_mem_cut hmem hzero),
    length_le_of_leads hleads hmem (Path.ofSegment?_eq_name_iff.2 ⟨rfl, hne⟩)⟩
  simpa using not_mem_of_mem_cut _ hmem hslash

section Below

variable {p : Path} {place : Place} {names : List Bytes}

lemma LinkFree.resolve_below (h : fs.LinkFree) (hfs : fs.WellFormed)
    (hp : fs.resolve p = .ok place) {e : Entry} (he : fs.entry? (place ++ names) = some e) :
    fs.resolve (p.below names) = .ok (place ++ names) := by
  induction names using List.reverseRecOn generalizing e with
  | nil => simpa using hp
  | append_singleton names n ih =>
    have hn := hfs.isFileName_of_entry he n (by simp)
    rw [← List.append_assoc] at he
    have hdir : fs.entry? (place ++ names) = some .directory := by
      simpa using hfs.entry?_dropLast he
    rw [Path.below_concat, ← List.append_assoc]
    exact resolve_join hn (ih hdir) hdir he (h.ne_link he)

/-- Names lead to the place that they spell, if there is anything. -/
theorem LinkFree.resolve_below_iff (h : fs.LinkFree) (hfs : fs.WellFormed)
    (hp : fs.resolve p = .ok place) (hnames : ∀ n ∈ names, Path.IsName n) {q : Place} :
    fs.resolve (p.below names) = .ok q ↔ q = place ++ names ∧ (fs.entry? q).isSome := by
  constructor
  · intro hq
    have hnames' : ∀ n ∈ names, IsFileName n := by
      intro n hn
      apply isFileName_of_mem_parts hq
      rw [Path.parts_below p hnames]
      exact List.mem_append_right _ (List.mem_map_of_mem hn)
    clear hnames
    obtain ⟨e, he, -⟩ := hfs.entry?_of_resolve hq
    refine ⟨?_, by simp [he]⟩
    induction names using List.reverseRecOn generalizing q e with
    | nil =>
      rw [Path.below_nil, hp] at hq
      simpa using (Except.ok.inj hq).symm
    | append_singleton names n ih =>
      have hn := hnames' n (by simp)
      have hup' : ∀ m ∈ names, IsFileName m := fun m hm => hnames' m (by simp [hm])
      have hne := Path.below_bytes_ne_nil (bytes_ne_nil_of_target (resolve_eq_ok_iff.1 hp)) hup'
      rw [Path.below_concat] at hq
      obtain ⟨up, hup, hdir, hentry⟩ := exists_resolve_of_join hne hn hq
      obtain ⟨below, hbelow⟩ := Option.isSome_iff_exists.1 (mem_names_iff.1 hentry)
      rw [resolve_join hn hup hdir hbelow (h.ne_link hbelow)] at hq
      rw [← List.append_assoc, ← ih hup hup' _ hdir]
      exact (Except.ok.inj hq).symm
  · rintro ⟨rfl, he⟩
    obtain ⟨e, he⟩ := Option.isSome_iff_exists.1 he
    exact h.resolve_below hfs hp he

lemma LinkFree.isFile_below_iff (h : fs.LinkFree) (hfs : fs.WellFormed)
    (hp : fs.resolve p = .ok place) (hnames : ∀ n ∈ names, Path.IsName n) :
    fs.isFile (p.below names) = true ↔
      ∃ content, fs.entry? (place ++ names) = some (.file content) := by
  simp only [isFile_iff, h.resolve_below_iff hfs hp hnames]
  grind

lemma LinkFree.isDirectory_below_iff (h : fs.LinkFree) (hfs : fs.WellFormed)
    (hp : fs.resolve p = .ok place) (hnames : ∀ n ∈ names, Path.IsName n) :
    fs.isDirectory (p.below names) = true ↔ fs.entry? (place ++ names) = some .directory := by
  simp only [isDirectory_iff, h.resolve_below_iff hfs hp hnames]
  grind

end Below

/-! ## Normal forms -/

/-- The place that one more component leads to. -/
def enter (place : Place) : Path.Component → Place
  | .root => []
  | .current => place
  | .parent => place.dropLast
  | .name n => place ++ [n]

lemma LinkFree.eq_of_leads (h : fs.LinkFree) {links : Nat} {place q : Place} {pieces : List Bytes}
    (hleads : fs.Leads true links place pieces (.ok (.found q))) :
    q = (pieces.filterMap Path.Component.ofSegment?).foldl enter place := by
  generalize hr : (.ok (.found q) : Except FileError Target) = r at hleads
  induction hleads with
  | done =>
    cases hr
    rfl
  | stay _ hstay _ ih =>
    rw [ih hr]
    simp [Path.Component.ofSegment?, hstay]
  | up _ _ ih =>
    rw [ih hr]
    simp [Path.Component.ofSegment?, enter]
  | lastLink _ _ hlink | link _ _ hlink => exact absurd rfl (h.ne_link hlink _)
  | name _ hpiece _ _ _ ih =>
    rw [ih hr]
    simp [Path.Component.ofSegment?, hpiece.ne_nil, hpiece.ne_dot, hpiece.ne_parent, enter]
  | _ => cases hr

/-- A normal path from the root is written with the names of the place it leads to. -/
lemma foldl_foldComponent_root {cs : List Path.Component} (hcs : .root ∉ cs) (place : Place) :
    cs.foldl Path.foldComponent ((place.map .name).reverse ++ [.root]) =
      ((cs.foldl enter place).map .name).reverse ++ [.root] := by
  induction cs generalizing place with
  | nil => rfl
  | cons c cs ih =>
    rw [List.mem_cons, not_or] at hcs
    rw [List.foldl_cons, List.foldl_cons, ← ih hcs.2]
    congr 1
    cases c with
    | root => exact absurd rfl hcs.1
    | current => rfl
    | name n => simp [enter, Path.foldComponent]
    | parent =>
      rcases List.eq_nil_or_concat place with rfl | ⟨place, n, rfl⟩ <;>
        simp [enter, Path.foldComponent]

/-- A normal path from another place goes up some directories and then down. -/
lemma exists_foldl_foldComponent {cs : List Path.Component} (hcs : .root ∉ cs) (place : Place) :
    ∃ k names, cs.foldl Path.foldComponent [] =
        (names.map .name).reverse ++ List.replicate k .parent ∧
      cs.foldl enter place = List.dropLast^[k] place ++ names := by
  induction cs using List.reverseRecOn with
  | nil => exact ⟨0, [], rfl, by simp⟩
  | append_singleton cs c ih =>
    rw [List.mem_append, List.mem_singleton, not_or] at hcs
    obtain ⟨k, names, hstack, hplace⟩ := ih hcs.1
    simp only [List.foldl_append, List.foldl_cons, List.foldl_nil, hstack, hplace]
    cases c with
    | root => exact absurd rfl hcs.2
    | current => exact ⟨k, names, rfl, rfl⟩
    | name n => exact ⟨k, names ++ [n], by simp [Path.foldComponent], by simp [enter]⟩
    | parent =>
      rcases List.eq_nil_or_concat names with rfl | ⟨names, n, rfl⟩
      · refine ⟨k + 1, [], ?_, by simp [enter, Function.iterate_succ_apply']⟩
        cases k <;> simp [Path.foldComponent, List.replicate_succ]
      · exact ⟨k, names, by simp [Path.foldComponent], by simp [enter]⟩

/-- Components of names are written below what stands before them. -/
lemma ofComponents_append_map_name (cs : List Path.Component) (names : List Bytes) :
    Path.ofComponents (cs ++ names.map .name) = (Path.ofComponents cs).below names := by
  rw [Path.ofComponents, List.foldl_append, List.foldl_map]
  rfl

lemma resolve_root (fs : FileSystem) : fs.resolve (Path.ofComponents [.root]) = .ok [] := by
  have hleads : fs.Leads true linkLimit [] [[], []] (.ok (.found [])) :=
    .stay rfl (.inl rfl) (.stay rfl (.inl rfl) (.done _ _))
  exact resolve_eq_ok_iff.2 (target_eq_ok_iff.2 ⟨List.cons_ne_nil _ _, rfl, hleads⟩)

lemma resolve_join_parent {p : Path} {q : Place} (hlast : p.bytes.getLast? = some Path.dot)
    (hp : fs.resolve p = .ok q) (hdir : fs.entry? q = some .directory) :
    fs.resolve (p.join ⟨[Path.dot, Path.dot]⟩) = .ok q.dropLast := by
  have hne := bytes_ne_nil_of_target (resolve_eq_ok_iff.1 hp)
  obtain ⟨hnul, hleads⟩ := leads_of_resolve hp
  obtain ⟨left, hleft⟩ := hleads.append
  have hjoin : p.join ⟨[Path.dot, Path.dot]⟩ =
      ⟨p.bytes ++ Path.slash :: [Path.dot, Path.dot]⟩ := by
    have hslash : Path.dot ≠ Path.slash := by decide
    rw [Path.join, if_neg (by decide), if_neg (by simp [hne, hlast, hslash])]
  have habsolute := Path.isAbsolute_join_eq p ⟨[Path.dot, Path.dot]⟩
  have hsegments : (p.join ⟨[Path.dot, Path.dot]⟩).segments =
      p.segments ++ [[Path.dot, Path.dot]] := by
    rw [Path.segments, hjoin, cut_append_cons _ _ (by simp)]
    rfl
  have hnul' : (p.join ⟨[Path.dot, Path.dot]⟩).bytes.contains 0 = false := by
    have hzero : (0 : UInt8) ≠ Path.slash ∧ (0 : UInt8) ≠ Path.dot := by decide
    simp [hjoin, hnul, hzero]
  have hrelative : (⟨[Path.dot, Path.dot]⟩ : Path).isAbsolute = false := rfl
  rw [hrelative, Bool.or_false] at habsolute
  rw [resolve_eq_ok_iff, target_eq_ok_iff, habsolute, hsegments]
  exact ⟨by simp [hjoin], hnul', hleft (.inl rfl) (.up hdir (.done _ _))⟩

/-- Going up leads to the directories above the current one. -/
lemma resolve_parents (hfs : fs.WellFormed) (hcurrent : fs.entry? fs.current = some .directory)
    (k : Nat) :
    (Path.ofComponents (List.replicate (k + 1) .parent)).bytes.getLast? = some Path.dot ∧
      fs.resolve (Path.ofComponents (List.replicate (k + 1) .parent)) =
        .ok (List.dropLast^[k + 1] fs.current) ∧
      fs.entry? (List.dropLast^[k + 1] fs.current) = some .directory := by
  induction k with
  | zero =>
    refine ⟨rfl, ?_, hfs.entry?_dropLast hcurrent⟩
    have hleads : fs.Leads true linkLimit fs.current [[Path.dot, Path.dot]]
        (.ok (.found fs.current.dropLast)) := .up hcurrent (.done _ _)
    exact resolve_eq_ok_iff.2 (target_eq_ok_iff.2 ⟨List.cons_ne_nil _ _, rfl, hleads⟩)
  | succ k ih =>
    obtain ⟨hlast, hup, hdir⟩ := ih
    have hjoin : Path.ofComponents (List.replicate (k + 1 + 1) .parent) =
        (Path.ofComponents (List.replicate (k + 1) .parent)).join ⟨[Path.dot, Path.dot]⟩ := by
      rw [List.replicate_succ', Path.ofComponents, List.foldl_append]
      rfl
    rw [Function.iterate_succ_apply', hjoin]
    refine ⟨?_, resolve_join_parent hlast hup hdir, hfs.entry?_dropLast hdir⟩
    rw [Path.join, if_neg (by decide)]
    split <;> simp

/-- A name that stands for itself is looked up in the current directory. -/
lemma LinkFree.resolve_name (h : fs.LinkFree) (hfs : fs.WellFormed) {n : Bytes} {e : Entry}
    (he : fs.entry? (fs.current ++ [n]) = some e) :
    fs.resolve (Path.ofComponents [.name n]) = .ok (fs.current ++ [n]) := by
  have hn := hfs.isFileName_of_entry he n (by simp)
  have hlink := h.ne_link he
  have hdir : fs.entry? fs.current = some .directory := by simpa using hfs.entry?_dropLast he
  have hwritten : Path.ofComponents [.name n] = ⟨n⟩ := by
    have hjoin : Path.ofComponents [.name n] = (⟨[]⟩ : Path).join ⟨n⟩ := rfl
    rw [hjoin, Path.join, Path.not_isAbsolute_of_isFileName hn, if_neg (by simp), if_pos (.inl rfl)]
    rfl
  have hsegments : (⟨n⟩ : Path).segments = [n] := Path.segments_of_isFileName hn
  rw [hwritten, resolve_eq_ok_iff, target_eq_ok_iff, hsegments,
    Path.not_isAbsolute_of_isFileName hn]
  exact ⟨hn.ne_nil, by simpa using hn.no_nul, .name hdir (isLookedUp hn) he hlink (.done _ _)⟩

/-- A path and its normal form lead to the same place, unless nothing is left of the path. -/
theorem LinkFree.resolve_normalize (h : fs.LinkFree) (hfs : fs.WellFormed) {p : Path}
    (hne : p.normalize.bytes ≠ []) {q : Place} (hq : fs.resolve p = .ok q) :
    fs.resolve p.normalize = .ok q := by
  obtain ⟨e, he, -⟩ := hfs.entry?_of_resolve hq
  obtain ⟨-, hleads⟩ := leads_of_resolve hq
  have hplace := h.eq_of_leads hleads
  have hroot : .root ∉ p.segments.filterMap Path.Component.ofSegment? := by
    simpa using fun s _ => Path.ofSegment?_ne_root s
  rw [Path.normalize_eq, Path.normalComponents, Path.parts, List.foldl_append] at hne ⊢
  by_cases habsolute : p.isAbsolute = true
  · have hstack := foldl_foldComponent_root hroot []
    have hstart : [Path.Component.root].foldl Path.foldComponent [] =
        (([] : Place).map .name).reverse ++ [.root] := rfl
    rw [if_pos habsolute] at hplace ⊢
    rw [hstart, hstack, ← hplace, List.reverse_append, List.reverse_reverse,
      List.reverse_singleton, ofComponents_append_map_name]
    exact h.resolve_below hfs fs.resolve_root (by simpa using he)
  · rw [if_neg habsolute] at hleads hplace hne ⊢
    obtain ⟨k, names, hstack, hend⟩ := exists_foldl_foldComponent hroot fs.current
    rw [List.foldl_nil, hstack, List.reverse_append, List.reverse_reverse, List.reverse_replicate,
      ofComponents_append_map_name] at hne ⊢
    rw [hend] at hplace
    subst hplace
    have hcurrent : fs.entry? fs.current = some .directory := by
      obtain ⟨s, rest, hsegments⟩ :=
        List.exists_cons_of_ne_nil (cut_ne_nil (· == Path.slash) p.bytes)
      rw [Path.segments, hsegments] at hleads
      exact hleads.entry?_eq
    cases k with
    | succ k =>
      obtain ⟨-, hup, -⟩ := resolve_parents hfs hcurrent k
      exact h.resolve_below hfs hup he
    | zero =>
      obtain ⟨n, names, rfl⟩ := List.exists_cons_of_ne_nil (show names ≠ [] from fun hnames =>
        hne (by rw [hnames]; rfl))
      rw [List.append_cons] at he ⊢
      obtain ⟨e', he'⟩ := exists_entry?_of_append hfs he
      exact h.resolve_below hfs (h.resolve_name hfs he') he

/-! ## Walks -/

lemma LinkFree.not_isLink (h : fs.LinkFree) (p : Path) : ¬ fs.IsLink p := by
  rintro ⟨q, target, -, he⟩
  exact h.ne_link he target rfl

/-- Where everything may be read as well, a walk has nothing to fail at. -/
theorem LinkFree.not_fault (h : fs.LinkFree) (hfs : fs.WellFormed) (hread : fs.unreadable = [])
    {allowed : Bytes → Prop} {root : Path} {names : List Bytes} {e : WalkError} :
    ¬ Fault fs allowed root names e := by
  intro hfault
  cases hfault with
  | unreadable start isName isAllowed directory entry failure =>
    obtain ⟨e, he⟩ := Option.isSome_iff_exists.1 (mem_names_iff.1 entry)
    rw [Path.below_concat, resolve_join (hfs.isFileName_of_mem_names entry) directory
      (hfs.entry?_of_mem_names entry) he (h.ne_link he)] at failure
    cases failure
  | @loop _ _ _ _ target _ _ _ _ _ link => exact h.ne_link link target rfl
  | @closed names q start isName isAllowed noLink leads isDirectory closed => simp [hread] at closed
  | unopened start isName isAllowed link => exact h.not_isLink _ link

/-- A walk lists the files below the directory it starts from, in ascending order. -/
theorem LinkFree.mem_walk_iff (h : fs.LinkFree) (hfs : fs.WellFormed) {root : Path} {place : Place}
    (hroot : fs.resolve root = .ok place) (hdir : fs.entry? place = some .directory)
    {found : List (List Bytes)} (hwalk : fs.walk allowed root = .ok found) :
    found.Pairwise (· < ·) ∧ ∀ names, names ∈ found ↔ names ≠ [] ∧ (∀ n ∈ names, allowed n = true) ∧
      ∃ content, fs.entry? (place ++ names) = some (.file content) := by
  obtain ⟨hsorted, hmem⟩ := mem_iff_of_walk_eq_ok hfs (isDirectory_iff.2 ⟨place, hroot, hdir⟩) hwalk
  refine ⟨hsorted, fun names => ?_⟩
  rw [hmem]
  constructor
  · rintro ⟨hne, hnames, hfile⟩
    exact ⟨hne, fun n hn => (hnames n hn).2,
      (h.isFile_below_iff hfs hroot fun n hn =>
        Path.isName_of_isFileName (hnames n hn).1).1 hfile⟩
  · rintro ⟨hne, hallowed, content, hentry⟩
    have hnames : ∀ n ∈ names, IsFileName n := fun n hn =>
      hfs.isFileName_of_entry hentry n (List.mem_append_right _ hn)
    exact ⟨hne, fun n hn => ⟨hnames n hn, hallowed n hn⟩,
      (h.isFile_below_iff hfs hroot fun n hn =>
        Path.isName_of_isFileName (hnames n hn)).2 ⟨content, hentry⟩⟩

end StyleGuide.FileSystem
