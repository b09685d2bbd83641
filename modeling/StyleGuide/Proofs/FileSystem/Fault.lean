import StyleGuide.Proofs.FileSystem.Walk

/-!
# Walks by paths

What a walk meets, said without the walk: files and faults below a directory by the paths that lead
to them. A fault below a directory that cannot be entered itself is never met, but then the fault of
the directory comes first.

## Main definitions

* `FileSystem.Fault`: the names at which a walk ends, and the error that it ends with.

## Main results

* `FileSystem.walk_eq_ok`: without faults, the walk lists the allowed files, in ascending order.
* `FileSystem.walk_eq_error_iff`: the walk ends with the first fault, in the same order.
-/

namespace StyleGuide.FileSystem

/-- Behind `k` of the names of `trail`, and behind no more of them, the place `q` is reached. -/
structure LastAt (fs : FileSystem) (root : Path) (trail : List Bytes) (q : Place) (k : Nat) :
    Prop where
  length_le : k ≤ trail.length
  resolve : fs.resolve (root.below (trail.take k)) = .ok q
  last : ∀ j, k < j → j ≤ trail.length → fs.resolve (root.below (trail.take j)) ≠ .ok q

/-- The names below the directory `root` at which a walk ends, and the error it ends with. The
directories before the last name are allowed; the last name need not be, unless it is that of a
directory which is entered. -/
inductive Fault (fs : FileSystem) (allowed : Bytes → Prop) (root : Path) :
    List Bytes → WalkError → Prop
  /-- The entry cannot be looked at. -/
  | unreadable {outer : List Bytes} {n : Bytes} {place : Place} {cause : FileError}
      (start : fs.isDirectory root = true)
      (isName : ∀ m ∈ outer, IsFileName m) (isAllowed : ∀ m ∈ outer, allowed m)
      (directory : fs.resolve (root.below outer) = .ok place) (entry : n ∈ fs.names place)
      (failure : fs.resolve (root.below (outer ++ [n])) = .error cause) :
      Fault fs allowed root (outer ++ [n]) (.unreadable (root.below (outer ++ [n])) cause)
  /-- The entry is a link back to a directory on the way; of several, the last one counts. -/
  | loop {outer : List Bytes} {n : Bytes} {place q : Place} {target : Path} {k : Nat}
      (start : fs.isDirectory root = true)
      (isName : ∀ m ∈ outer, IsFileName m) (isAllowed : ∀ m ∈ outer, allowed m)
      (directory : fs.resolve (root.below outer) = .ok place)
      (link : fs.entry? (place ++ [n]) = some (.link target))
      (leads : fs.resolve (root.below (outer ++ [n])) = .ok q)
      (isDirectory : fs.entry? q = some .directory) (readable : q ∉ fs.unreadable)
      (ancestor : fs.LastAt root outer q k) :
      Fault fs allowed root (outer ++ [n])
        (.loop (root.below (outer ++ [n])) (root.below (outer.take k)))
  /-- The directory may not be read. It may be the one that the walk starts from. -/
  | closed {names : List Bytes} {q : Place} (start : fs.isDirectory root = true)
      (isName : ∀ m ∈ names, IsFileName m) (isAllowed : ∀ m ∈ names, allowed m)
      (noLink : ¬ fs.IsLink (root.below names))
      (leads : fs.resolve (root.below names) = .ok q)
      (isDirectory : fs.entry? q = some .directory) (closed : q ∈ fs.unreadable) :
      Fault fs allowed root names (.unreadable (root.below names) .permissionDenied)
  /-- The entry is a link to a directory that may not be read. -/
  | unopened {names : List Bytes} {q : Place} (start : fs.isDirectory root = true)
      (isName : ∀ m ∈ names, IsFileName m) (isAllowed : ∀ m ∈ names.dropLast, allowed m)
      (link : fs.IsLink (root.below names))
      (leads : fs.resolve (root.below names) = .ok q)
      (isDirectory : fs.entry? q = some .directory) (closed : q ∈ fs.unreadable) :
      Fault fs allowed root names (.unopened .permissionDenied)

variable {fs : FileSystem} {allowed : Bytes → Bool} {root : Path}

lemma Fault.isDirectory {names : List Bytes} {e : WalkError}
    (h : Fault fs (allowed ·) root names e) : fs.isDirectory root = true := by
  cases h <;> assumption

/-- Also the last name, where a walk ends, is that of an entry. -/
lemma Fault.isFileName {names : List Bytes} {e : WalkError}
    (h : Fault fs (allowed ·) root names e) (hfs : fs.WellFormed) : ∀ n ∈ names, IsFileName n := by
  cases h with
  | @unreadable outer n place cause start isName isAllowed directory hentry failure =>
    have hn := hfs.isFileName_of_mem_names hentry
    grind
  | @loop outer n place q target k start isName isAllowed directory link leads isDir readable
      ancestor =>
    have hentry : n ∈ fs.names place := mem_names_iff.2 (by simp [link])
    have hn := hfs.isFileName_of_mem_names hentry
    grind
  | closed _ isName => exact isName
  | unopened _ isName => exact isName

/-! ## Looking into what stands at the end of a path -/

section LookInto

variable {visits : List Visit} {path : Path} {place q : Place}

/-- A walk enters the directory at a place by a path: one that may not be read is entered only by
its own name. -/
structure Enters (fs : FileSystem) (path : Path) (q : Place) : Prop where
  resolve : fs.resolve path = .ok q
  isDirectory : fs.entry? q = some .directory
  noLink : q ∈ fs.unreadable → ¬ fs.IsLink path

lemma isLink_iff (hplace : fs.target false path = .ok (.found place)) :
    fs.IsLink path ↔ ∃ target, fs.entry? place = some (.link target) := by
  constructor
  · rintro ⟨q, target, hq, hlink⟩
    cases hplace.symm.trans hq
    exact ⟨target, hlink⟩
  · rintro ⟨target, hlink⟩
    exact ⟨place, target, hplace, hlink⟩

/-- What is taken for a directory is entered. -/
lemma enters_of_lookInto (hplace : fs.target false path = .ok (.found place))
    (h : fs.lookInto visits path place = .ok (.directory q)) : fs.Enters path q := by
  rcases lookInto_eq_directory h with ⟨rfl, hdir⟩ | ⟨-, hreal, hdir, hopen, -⟩
  · refine ⟨resolve_of_target hplace hdir (by simp), hdir, fun _ => ?_⟩
    simp [isLink_iff hplace, hdir]
  · exact ⟨hreal, hdir, fun hclosed => absurd hclosed hopen⟩

/-- The walk takes for a file exactly what a path leads to that is a file. -/
lemma lookInto_eq_file_iff (hfs : fs.WellFormed)
    (hplace : fs.target false path = .ok (.found place)) {e : Entry}
    (hentry : fs.entry? place = some e) :
    fs.lookInto visits path place = .ok .file ↔ fs.isFile path = true := by
  have hstay : (∀ target, e ≠ .link target) → fs.resolve path = .ok place :=
    resolve_of_target hplace hentry
  rw [isFile_iff, lookInto, hentry]
  cases e with
  | file content => simp [hstay (by simp), hentry]
  | directory => simp [hstay (by simp), hentry]
  | link target =>
    cases hreal : fs.resolve path with
    | error e => simp
    | ok real =>
      obtain ⟨e, he, hlink⟩ := hfs.entry?_of_resolve hreal
      cases e with
      | file content => simp [he]
      | directory =>
        simp only [he]
        grind
      | link target => exact absurd rfl (hlink target)

/-- What a path leads to that is a directory is entered, unless there is an error. -/
lemma lookInto_of_directory (hfs : fs.WellFormed)
    (hplace : fs.target false path = .ok (.found place)) {e : Entry}
    (hentry : fs.entry? place = some e) (hq : fs.resolve path = .ok q)
    (hdir : fs.entry? q = some .directory) :
    (∃ e, fs.lookInto visits path place = .error e) ∨
      fs.lookInto visits path place = .ok (.directory q) := by
  cases hfound : fs.lookInto visits path place with
  | error e => exact .inl ⟨e, rfl⟩
  | ok found =>
    cases found with
    | file =>
      obtain ⟨q', content, hq', hfile⟩ :=
        isFile_iff.1 ((lookInto_eq_file_iff hfs hplace hentry).1 hfound)
      grind
    | directory q' =>
      cases hq.symm.trans (enters_of_lookInto hplace hfound).resolve
      exact .inr rfl

end LookInto

/-! ## The directories on the way -/

/-- The directories that are being visited, innermost first: the root and all on the way to
`trail`. -/
inductive Trace (fs : FileSystem) (root : Path) : List Bytes → List Visit → Prop
  | start {place : Place} (h : fs.Enters root place) : Trace fs root [] [⟨root, place⟩]
  | enter {trail : List Bytes} {visits : List Visit} {n : Bytes} {place : Place}
      (outer : Trace fs root trail visits) (h : fs.Enters (root.below (trail ++ [n])) place) :
      Trace fs root (trail ++ [n]) (⟨root.below (trail ++ [n]), place⟩ :: visits)

lemma Trace.bytes_ne_nil {trail : List Bytes} {visits : List Visit}
    (h : Trace fs root trail visits) : root.bytes ≠ [] := by
  induction h with
  | start h => exact bytes_ne_nil_of_target (resolve_eq_ok_iff.1 h.resolve)
  | enter _ _ ih => exact ih

lemma Trace.head_path {trail : List Bytes} {visit : Visit} {outer : List Visit}
    (h : Trace fs root trail (visit :: outer)) : visit.path = root.below trail := by
  cases h <;> rfl

lemma Trace.enters_head {trail : List Bytes} {visit : Visit} {outer : List Visit}
    (h : Trace fs root trail (visit :: outer)) : fs.Enters (root.below trail) visit.place := by
  cases h <;> assumption

lemma Trace.resolve_head {trail : List Bytes} {visit : Visit} {outer : List Visit}
    (h : Trace fs root trail (visit :: outer)) :
    fs.resolve (root.below trail) = .ok visit.place :=
  h.enters_head.resolve

/-- A name in the innermost visited directory has its place there. -/
lemma Trace.target_join (hfs : fs.WellFormed) {trail : List Bytes} {visit : Visit}
    {outer : List Visit} (h : Trace fs root trail (visit :: outer)) {n : Bytes}
    (hn : n ∈ fs.names visit.place) :
    fs.target false (visit.path.join ⟨n⟩) = .ok (.found (visit.place ++ [n])) := by
  obtain ⟨e, he⟩ := Option.isSome_iff_exists.1 (mem_names_iff.1 hn)
  rw [h.head_path]
  exact FileSystem.target_join (hfs.isFileName_of_mem_names hn) h.resolve_head
    (hfs.entry?_of_mem_names hn) he

lemma lastAt_concat_iff {trail : List Bytes} {n : Bytes} {q : Place} {k : Nat} :
    fs.LastAt root (trail ++ [n]) q k ↔
      (k = trail.length + 1 ∧ fs.resolve (root.below (trail ++ [n])) = .ok q) ∨
      (fs.resolve (root.below (trail ++ [n])) ≠ .ok q ∧ fs.LastAt root trail q k) := by
  have htake : ∀ j ≤ trail.length, (trail ++ [n]).take j = trail.take j := fun j hj =>
    List.take_append_of_le_length hj
  have hfull : (trail ++ [n]).take (trail.length + 1) = trail ++ [n] :=
    List.take_of_length_le (by simp)
  have hlen : (trail ++ [n]).length = trail.length + 1 := by simp
  constructor
  · rintro ⟨hk, hres, hlast⟩
    rw [hlen] at hk hlast
    rcases Nat.lt_or_eq_of_le hk with hlt | rfl
    · refine .inr ⟨hfull ▸ hlast _ hlt (Nat.le_refl _), by omega, ?_, fun j h₁ h₂ => ?_⟩
      · rwa [htake k (by omega)] at hres
      · rw [← htake j h₂]
        exact hlast j h₁ (by omega)
    · exact .inl ⟨rfl, hfull ▸ hres⟩
  · rintro (⟨rfl, hres⟩ | ⟨hne, hk, hres, hlast⟩)
    · exact ⟨by simp, by rwa [hfull], fun j h₁ h₂ => by omega⟩
    · refine ⟨by omega, by rwa [htake k hk], fun j h₁ h₂ => ?_⟩
      rcases Nat.lt_or_eq_of_le (hlen ▸ h₂) with hlt | rfl
      · rw [htake j (by omega)]
        exact hlast j h₁ (by omega)
      · rwa [hfull]

lemma lastAt_nil_iff {q : Place} {k : Nat} :
    fs.LastAt root [] q k ↔ k = 0 ∧ fs.resolve root = .ok q := by
  constructor
  · rintro ⟨hk, hres, -⟩
    exact ⟨Nat.le_zero.1 hk, by simpa using hres⟩
  · rintro ⟨rfl, hres⟩
    exact ⟨Nat.le_refl _, by simpa using hres, fun j h₁ h₂ => absurd h₁ (Nat.not_lt.2 h₂)⟩

/-- The visits are searched for a place from the innermost one outwards. -/
lemma Trace.find?_eq_some_iff {trail : List Bytes} {visits : List Visit}
    (h : Trace fs root trail visits) {q : Place} {v : Visit} :
    visits.find? (·.place = q) = some v ↔
      ∃ k, fs.LastAt root trail q k ∧ v = ⟨root.below (trail.take k), q⟩ := by
  induction h with
  | @start place h =>
    by_cases hq : place = q
    · simp [lastAt_nil_iff, h.resolve, hq, eq_comm]
    · simp [lastAt_nil_iff, h.resolve, hq]
  | @enter trail visits n place _ h ih =>
    simp only [lastAt_concat_iff, h.resolve, Except.ok.injEq, ne_eq]
    by_cases hq : place = q
    · rw [List.find?_cons_of_pos (by simpa using hq)]
      simp [hq, List.take_of_length_le, eq_comm]
    · rw [List.find?_cons_of_neg (by simpa using hq), ih]
      simp only [hq, and_false, false_or, not_false_eq_true, true_and]
      refine exists_congr fun k => and_congr_right fun hk => ?_
      rw [List.take_append_of_le_length hk.length_le]

/-! ## Meeting faults -/

variable {outer : List Visit} {visit : Visit} {trail : List Bytes}

lemma Trace.join {n : Bytes} {q : Place} (h : Trace fs root trail (visit :: outer))
    (hq : fs.Enters (visit.path.join ⟨n⟩) q) :
    Trace fs root (trail ++ [n]) (⟨visit.path.join ⟨n⟩, q⟩ :: visit :: outer) := by
  rw [h.head_path, ← Path.below_concat] at hq ⊢
  exact .enter h hq

/-- Where there is something to walk through, the walk has started from a directory. -/
lemma Trace.isDirectory (h : Trace fs root trail (visit :: outer))
    (hnames : ∀ m ∈ trail, IsFileName m) : fs.isDirectory root = true :=
  isDirectory_iff.2
    (resolve_of_below h.bytes_ne_nil hnames h.resolve_head h.enters_head.isDirectory)

/-- Where a walk cannot look into an entry, there is a fault. -/
lemma fault_of_lookInto_eq_error (hfs : fs.WellFormed) (h : Trace fs root trail (visit :: outer))
    (hnames : ∀ m ∈ trail, IsFileName m ∧ allowed m = true) {n : Bytes}
    (hn : n ∈ fs.names visit.place) {e : WalkError}
    (he : fs.lookInto (visit :: outer) (visit.path.join ⟨n⟩) (visit.place ++ [n]) = .error e) :
    fs.Fault (allowed ·) root (trail ++ [n]) e := by
  have hisName := fun m hm => (hnames m hm).1
  have hisAllowed := fun m hm => (hnames m hm).2
  have hstart := h.isDirectory hisName
  have htarget := h.target_join hfs hn
  rw [h.head_path, ← Path.below_concat] at he htarget
  obtain ⟨⟨target, hlink⟩, hcause⟩ := lookInto_eq_error_iff.1 he
  obtain ⟨cause, hfailure, rfl⟩ | ⟨q, hq, hdir, ⟨hclosed, rfl⟩ | ⟨hopen, v, hv, rfl⟩⟩ := hcause
  · exact .unreadable hstart hisName hisAllowed h.resolve_head hn hfailure
  · refine .unopened hstart (fun m hm => ?_) (by simpa using hisAllowed)
      ((isLink_iff htarget).2 ⟨target, hlink⟩) hq hdir hclosed
    rcases List.mem_append.1 hm with hm | hm
    · exact hisName m hm
    · cases List.mem_singleton.1 hm
      exact hfs.isFileName_of_mem_names hn
  · obtain ⟨k, hk, rfl⟩ := h.find?_eq_some_iff.1 hv
    exact .loop hstart hisName hisAllowed h.resolve_head hlink hq hdir hopen hk

/-- Every error that the walk meets is a fault. -/
lemma fault_of_meets (hfs : fs.WellFormed) {names : List Bytes} {e : WalkError}
    (h : Trace fs root trail (visit :: outer))
    (htrail : ∀ m ∈ trail, IsFileName m ∧ allowed m = true)
    (hmeets : Meets fs allowed outer visit names (.error e)) :
    fs.Fault (allowed ·) root (trail ++ names) e := by
  generalize hr : Except.error e = r at hmeets
  induction hmeets generalizing trail with
  | closed hclosed =>
    cases hr
    have henters := h.enters_head
    rw [List.append_nil, h.head_path]
    exact .closed (h.isDirectory fun m hm => (htrail m hm).1) (fun m hm => (htrail m hm).1)
      (fun m hm => (htrail m hm).2) (henters.noLink hclosed) henters.resolve henters.isDirectory
      hclosed
  | error _ hn he =>
    cases hr
    exact fault_of_lookInto_eq_error hfs h htrail hn he
  | file => cases hr
  | @inside outer visit n place names r _ hn hallowed hdir hmeets ih =>
    rw [List.append_cons]
    refine ih (h.join (enters_of_lookInto (h.target_join hfs hn) hdir)) (fun m hm => ?_) hr
    rcases List.mem_append.1 hm with hm | hm
    · exact htrail m hm
    · cases List.mem_singleton.1 hm
      exact ⟨hfs.isFileName_of_mem_names hn, hallowed⟩

/-- Every file that the walk meets is an allowed one. -/
lemma isFile_of_meets (hfs : fs.WellFormed) {names : List Bytes}
    (h : Trace fs root trail (visit :: outer))
    (hmeets : Meets fs allowed outer visit names (.ok ())) :
    names ≠ [] ∧ (∀ n ∈ names, IsFileName n ∧ allowed n = true) ∧
      fs.isFile (root.below (trail ++ names)) = true := by
  generalize hr : Except.ok () = r at hmeets
  induction hmeets generalizing trail with
  | closed => cases hr
  | error => cases hr
  | file _ hn hallowed hfile =>
    refine ⟨List.cons_ne_nil _ _, fun m hm => ?_, ?_⟩
    · cases List.mem_singleton.1 hm
      exact ⟨hfs.isFileName_of_mem_names hn, hallowed⟩
    · obtain ⟨e, he⟩ := Option.isSome_iff_exists.1 (mem_names_iff.1 hn)
      rw [Path.below_concat, ← h.head_path]
      exact (lookInto_eq_file_iff hfs (h.target_join hfs hn) he).1 hfile
  | @inside outer visit n place names r _ hn hallowed hdir hmeets ih =>
    obtain ⟨-, hnames, hfile⟩ := ih (h.join (enters_of_lookInto (h.target_join hfs hn) hdir)) hr
    refine ⟨List.cons_ne_nil _ _, fun m hm => ?_, by rwa [List.append_cons]⟩
    rcases List.mem_cons.1 hm with rfl | hm
    · exact ⟨hfs.isFileName_of_mem_names hn, hallowed⟩
    · exact hnames m hm

/-! ## Coming to a directory -/

/-- The walk comes to every directory behind allowed names, unless an error is met on the way. -/
lemma Trace.descend (hfs : fs.WellFormed) {names : List Bytes} {q : Place}
    (h : Trace fs root trail (visit :: outer)) (hp : visit.path.bytes ≠ [])
    (hnames : ∀ n ∈ names, IsFileName n ∧ allowed n = true)
    (hq : fs.resolve (visit.path.below names) = .ok q) (hdir : fs.entry? q = some .directory) :
    (∃ front back e, names = front ++ back ∧ Meets fs allowed outer visit front (.error e)) ∨
      ∃ inner outer', Trace fs root (trail ++ names) (inner :: outer') ∧
        ∀ more r, Meets fs allowed outer' inner more r →
          Meets fs allowed outer visit (names ++ more) r := by
  induction names generalizing trail visit outer with
  | nil => exact .inr ⟨visit, outer, by simpa using h, fun more r hmore => hmore⟩
  | cons n names ih =>
    obtain ⟨hname, hallowed⟩ := hnames n List.mem_cons_self
    have hnames := fun m hm => hnames m (List.mem_cons_of_mem n hm)
    have hp' := Path.join_bytes_ne_nil visit.path hname
    obtain ⟨place, hplace, hpdir⟩ :=
      resolve_of_below hp' (fun m hm => (hnames m hm).1) hq hdir
    have hn : n ∈ fs.names visit.place := by
      obtain ⟨here, hhere, -, hn⟩ := exists_resolve_of_join hp hname hplace
      have hhead := h.resolve_head
      rw [← h.head_path, hhere] at hhead
      cases hhead
      exact hn
    by_cases hclosed : visit.place ∈ fs.unreadable
    · exact .inl ⟨[], n :: names, _, rfl, .closed hclosed⟩
    have htarget := h.target_join hfs hn
    obtain ⟨e, he⟩ := Option.isSome_iff_exists.1 (mem_names_iff.1 hn)
    rcases lookInto_of_directory hfs htarget he hplace hpdir with ⟨e, he⟩ | henter
    · exact .inl ⟨[n], names, e, rfl, .error hclosed hn he⟩
    · rcases ih (h.join (enters_of_lookInto htarget henter)) hp' hnames hq with
        ⟨front, back, e, rfl, hfront⟩ | ⟨inner, outer', htrace, hmore⟩
      · exact .inl ⟨n :: front, back, e, rfl, .inside hclosed hn hallowed henter hfront⟩
      · refine .inr ⟨inner, outer', by rwa [List.append_cons], fun more r hr => ?_⟩
        exact .inside hclosed hn hallowed henter (hmore more r hr)

/-- In the directory that holds it, a fault is met. -/
lemma meets_of_fault_concat (hfs : fs.WellFormed) (h : Trace fs root trail (visit :: outer))
    (hopen : visit.place ∉ fs.unreadable) {n : Bytes} (hn : n ∈ fs.names visit.place)
    {e : WalkError} (hfault : Fault fs (allowed ·) root (trail ++ [n]) e) :
    Meets fs allowed outer visit [n] (.error e) := by
  have htarget := h.target_join hfs hn
  have hhead := h.resolve_head
  obtain ⟨found, hfound⟩ := Option.isSome_iff_exists.1 (mem_names_iff.1 hn)
  have hpath : visit.path.join ⟨n⟩ = root.below (trail ++ [n]) := by
    rw [h.head_path, ← Path.below_concat]
  have herror : ∀ {e}, fs.lookInto (visit :: outer) (root.below (trail ++ [n]))
      (visit.place ++ [n]) = .error e → Meets fs allowed outer visit [n] (.error e) :=
    fun he => .error hopen hn (hpath ▸ he)
  rw [hpath] at htarget
  generalize hnames : trail ++ [n] = names at hfault herror htarget hpath
  cases hfault with
  | @unreadable outer' n' place cause start isName isAllowed directory hentry failure =>
    refine herror (lookInto_eq_error_iff.2 ⟨?_, .inl ⟨cause, failure, rfl⟩⟩)
    cases found with
    | link target => exact ⟨target, hfound⟩
    | _ => simp [resolve_of_target htarget hfound] at failure
  | @loop outer' n' place q target k start isName isAllowed directory link leads isDirectory
      readable ancestor =>
    obtain ⟨rfl, rfl⟩ : trail = outer' ∧ n = n' := by simpa using List.append_inj' hnames rfl
    cases hhead.symm.trans directory
    exact herror (lookInto_eq_error_iff.2 ⟨⟨target, link⟩, .inr ⟨q, leads, isDirectory,
      .inr ⟨readable, _, h.find?_eq_some_iff.2 ⟨k, ancestor, rfl⟩, rfl⟩⟩⟩)
  | @closed names q start isName isAllowed noLink leads isDirectory closed =>
    rcases lookInto_of_directory hfs htarget hfound leads isDirectory with ⟨e, he⟩ | henter
    · obtain ⟨hlink, -⟩ := lookInto_eq_error_iff.1 he
      exact absurd ((isLink_iff htarget).2 hlink) noLink
    · have hallowed : allowed n = true := isAllowed n (by simp [← hnames])
      rw [← hpath] at henter ⊢
      exact .inside hopen hn hallowed henter (.closed closed)
  | @unopened names q start isName isAllowed link leads isDirectory closed =>
    exact herror (lookInto_eq_error_iff.2
      ⟨(isLink_iff htarget).1 link, .inr ⟨q, leads, isDirectory, .inl ⟨closed, rfl⟩⟩⟩)

/-- Behind some names, a fault stands in a directory that the names before the last one lead to. -/
lemma Fault.exists_directory (hfs : fs.WellFormed) (hp : root.bytes ≠ []) {names : List Bytes}
    {n : Bytes} {e : WalkError} (h : Fault fs (allowed ·) root (names ++ [n]) e) :
    (∀ m ∈ names, IsFileName m ∧ allowed m = true) ∧
      ∃ place, fs.resolve (root.below names) = .ok place ∧
        fs.entry? place = some .directory ∧ n ∈ fs.names place := by
  have hjoin : ∀ {q}, (∀ m ∈ names ++ [n], IsFileName m) →
      fs.resolve (root.below (names ++ [n])) = .ok q →
      ∃ place, fs.resolve (root.below names) = .ok place ∧
        fs.entry? place = some .directory ∧ n ∈ fs.names place := by
    intro q hnames hq
    have hbelow := Path.below_bytes_ne_nil hp fun m hm => hnames m (List.mem_append_left [n] hm)
    rw [Path.below_concat] at hq
    exact exists_resolve_of_join hbelow (hnames n (by simp)) hq
  generalize hall : names ++ [n] = all at h hjoin
  cases h with
  | @unreadable outer n' place cause start isName isAllowed directory hentry failure =>
    obtain ⟨rfl, rfl⟩ : names = outer ∧ n = n' := by simpa using List.append_inj' hall rfl
    exact ⟨fun m hm => ⟨isName m hm, isAllowed m hm⟩, place, directory,
      hfs.entry?_of_mem_names hentry, hentry⟩
  | @loop outer n' place q target k start isName isAllowed directory link leads isDirectory
      readable ancestor =>
    obtain ⟨rfl, rfl⟩ : names = outer ∧ n = n' := by simpa using List.append_inj' hall rfl
    have hentry : n ∈ fs.names place := mem_names_iff.2 (by simp [link])
    exact ⟨fun m hm => ⟨isName m hm, isAllowed m hm⟩, place, directory,
      hfs.entry?_of_mem_names hentry, hentry⟩
  | closed start isName isAllowed noLink leads =>
    subst hall
    exact ⟨fun m hm => ⟨isName m (by simp [hm]), isAllowed m (by simp [hm])⟩, hjoin isName leads⟩
  | unopened start isName isAllowed link leads =>
    subst hall
    exact ⟨fun m hm => ⟨isName m (by simp [hm]), isAllowed m (by simpa using hm)⟩,
      hjoin isName leads⟩

/-! ## The whole walk -/

/-- A walk enters the directory that it starts from, or it cannot look into it. -/
lemma exists_error_or_enters (allowed : Bytes → Bool) (hfs : fs.WellFormed)
    (hroot : fs.isDirectory root = true) :
    (∃ e, MeetsFrom fs allowed root [] (.error e)) ∨
      ∃ place, fs.Enters root place ∧
        ∀ names r, Meets fs allowed [] ⟨root, place⟩ names r →
          MeetsFrom fs allowed root names r := by
  obtain ⟨q, hq, hdir⟩ := isDirectory_iff.1 hroot
  obtain ⟨start, e, hstart, he⟩ := exists_target_of_resolve hq hdir
  rcases lookInto_of_directory hfs hstart he hq hdir with ⟨e, he⟩ | henter
  · exact .inl ⟨e, .error hstart he⟩
  · exact .inr ⟨q, enters_of_lookInto hstart henter, fun names r => .inside hstart henter⟩

/-- Every error that a walk meets is a fault. -/
lemma fault_of_meetsFrom (hfs : fs.WellFormed) (hroot : fs.isDirectory root = true)
    {names : List Bytes} {e : WalkError} (hmeets : MeetsFrom fs allowed root names (.error e)) :
    Fault fs (allowed ·) root names e := by
  cases hmeets with
  | inside hstart henter hmeets =>
    simpa using fault_of_meets hfs (.start (enters_of_lookInto hstart henter)) (by simp) hmeets
  | error hstart he =>
    obtain ⟨q, hq, hdir⟩ := isDirectory_iff.1 hroot
    obtain ⟨hlink, ⟨cause, hfailure, -⟩ | ⟨q', hq', -, ⟨hclosed, rfl⟩ | ⟨-, v, hv, -⟩⟩⟩ :=
      lookInto_eq_error_iff.1 he
    · cases hq.symm.trans hfailure
    · cases hq.symm.trans hq'
      exact .unopened hroot (by simp) (by simp) ((isLink_iff hstart).2 hlink) hq hdir hclosed
    · cases hv

/-- A fault at the root itself is met. -/
lemma meetsFrom_of_fault_nil (hfs : fs.WellFormed) {e : WalkError}
    (hfault : Fault fs (allowed ·) root [] e) : MeetsFrom fs allowed root [] (.error e) := by
  generalize hnames : ([] : List Bytes) = names at hfault
  cases hfault with
  | unreadable => simp at hnames
  | loop => simp at hnames
  | @closed names q start isName isAllowed noLink leads isDirectory closed =>
    subst hnames
    obtain ⟨own, e, hstart, he⟩ := exists_target_of_resolve leads isDirectory
    rcases lookInto_of_directory hfs hstart he leads isDirectory with ⟨e, he⟩ | henter
    · obtain ⟨hlink, -⟩ := lookInto_eq_error_iff.1 he
      exact absurd ((isLink_iff hstart).2 hlink) noLink
    · exact .inside hstart henter (.closed closed)
  | @unopened names q start isName isAllowed link leads isDirectory closed =>
    subst hnames
    obtain ⟨own, e, hstart, -⟩ := exists_target_of_resolve leads isDirectory
    exact .error hstart (lookInto_eq_error_iff.2
      ⟨(isLink_iff hstart).1 link, .inr ⟨q, leads, isDirectory, .inl ⟨closed, rfl⟩⟩⟩)

/-- A fault is met, or else an error that stands before it. -/
lemma meetsFrom_of_fault (hfs : fs.WellFormed) {names : List Bytes} {e : WalkError}
    (hfault : Fault fs (allowed ·) root names e) :
    MeetsFrom fs allowed root names (.error e) ∨
      ∃ front back e', names = front ++ back ∧ back ≠ [] ∧
        MeetsFrom fs allowed root front (.error e') := by
  have hroot := hfault.isDirectory
  rcases List.eq_nil_or_concat' names with rfl | ⟨outer, n, rfl⟩
  · exact .inl (meetsFrom_of_fault_nil hfs hfault)
  rcases exists_error_or_enters allowed hfs hroot with ⟨e', he'⟩ | ⟨place, henters, hmeets⟩
  · exact .inr ⟨[], outer ++ [n], e', rfl, by simp, he'⟩
  have hp := bytes_ne_nil_of_target (resolve_eq_ok_iff.1 henters.resolve)
  obtain ⟨hnames, q, hq, hdir, hn⟩ := hfault.exists_directory hfs hp
  rcases (Trace.start henters).descend hfs hp hnames hq hdir with
    ⟨front, back, e', rfl, hfront⟩ | ⟨inner, outer', htrace, hmore⟩
  · exact .inr ⟨front, back ++ [n], e', by simp, by simp, hmeets _ _ hfront⟩
  cases hq.symm.trans htrace.resolve_head
  by_cases hclosed : inner.place ∈ fs.unreadable
  · have hfront := hmeets _ _ (hmore [] _ (.closed hclosed))
    exact .inr ⟨outer, [n], _, rfl, by simp, by simpa using hfront⟩
  · exact .inl (hmeets _ _ (hmore [n] _ (meets_of_fault_concat hfs htrace hclosed hn hfault)))

/-- Every allowed file is met, unless an error is. -/
lemma meetsFrom_of_isFile (hfs : fs.WellFormed) (hroot : fs.isDirectory root = true)
    {names : List Bytes} (hne : names ≠ []) (hnames : ∀ n ∈ names, IsFileName n ∧ allowed n = true)
    (hfile : fs.isFile (root.below names) = true) :
    MeetsFrom fs allowed root names (.ok ()) ∨
      ∃ names' e, MeetsFrom fs allowed root names' (.error e) := by
  rcases exists_error_or_enters allowed hfs hroot with ⟨e, he⟩ | ⟨place, henters, hmeets⟩
  · exact .inr ⟨[], e, he⟩
  have hp := bytes_ne_nil_of_target (resolve_eq_ok_iff.1 henters.resolve)
  obtain ⟨outer, n, rfl⟩ := (List.eq_nil_or_concat' names).resolve_left hne
  have hn := (hnames n (by simp)).1
  have houter := fun m hm => hnames m (List.mem_append_left [n] hm)
  have hbelow := Path.below_bytes_ne_nil hp fun m hm => (houter m hm).1
  obtain ⟨q', content, hq', -⟩ := isFile_iff.1 hfile
  rw [Path.below_concat] at hq' hfile
  obtain ⟨q, hq, hdir, hmem⟩ := exists_resolve_of_join hbelow hn hq'
  rcases (Trace.start henters).descend hfs hp houter hq hdir with
    ⟨front, back, e', rfl, hfront⟩ | ⟨inner, outer', htrace, hmore⟩
  · exact .inr ⟨front, e', hmeets _ _ hfront⟩
  cases hq.symm.trans htrace.resolve_head
  by_cases hclosed : inner.place ∈ fs.unreadable
  · exact .inr ⟨_, _, hmeets _ _ (hmore [] _ (.closed hclosed))⟩
  · obtain ⟨e, he⟩ := Option.isSome_iff_exists.1 (mem_names_iff.1 hmem)
    refine .inl (hmeets _ _ (hmore [n] _ (.file hclosed hmem (hnames n (by simp)).2 ?_)))
    rw [lookInto_eq_file_iff hfs (htrace.target_join hfs hmem) he]
    rwa [htrace.head_path]

/-- Every file that a walk meets is an allowed one. -/
lemma isFile_of_meetsFrom (hfs : fs.WellFormed) {names : List Bytes}
    (hmeets : MeetsFrom fs allowed root names (.ok ())) :
    names ≠ [] ∧ (∀ n ∈ names, IsFileName n ∧ allowed n = true) ∧
      fs.isFile (root.below names) = true := by
  cases hmeets with
  | inside hstart henter hmeets =>
    simpa using isFile_of_meets hfs (.start (enters_of_lookInto hstart henter)) hmeets

/-- The walk from a directory gives the files that it meets, or the first error. -/
lemma exists_events (allowed : Bytes → Bool) (hroot : fs.isDirectory root = true) :
    ∃ evs : List Event, fs.walk allowed root = evs.mapM Event.names? ∧
      (evs.Pairwise fun a b => a.1 < b.1) ∧
      ∀ names r, (names, r) ∈ evs ↔ MeetsFrom fs allowed root names r := by
  obtain ⟨q, hq, hdir⟩ := isDirectory_iff.1 hroot
  obtain ⟨start, -, hstart, -⟩ := exists_target_of_resolve hq hdir
  exact walk_eq_mapM allowed hstart

/-- A walk with a fault comes to no other end. -/
theorem exists_walk_eq_error (hfs : fs.WellFormed) {names : List Bytes} {e : WalkError}
    (hfault : Fault fs (allowed ·) root names e) : ∃ e', fs.walk allowed root = .error e' := by
  obtain ⟨evs, hwalk, -, hmem⟩ := exists_events allowed hfault.isDirectory
  rw [hwalk]
  rcases meetsFrom_of_fault hfs hfault with h | ⟨front, back, e'', -, -, h⟩
  · exact exists_mapM_names?_eq_error ((hmem _ _).2 h)
  · exact exists_mapM_names?_eq_error ((hmem _ _).2 h)

/-- Without faults, the walk lists the allowed files, in ascending order. -/
theorem walk_eq_ok (hfs : fs.WellFormed) (hroot : fs.isDirectory root = true)
    (hfault : ∀ names e, ¬ Fault fs (allowed ·) root names e) :
    ∃ files, fs.walk allowed root = .ok files ∧ files.Pairwise (· < ·) ∧
      ∀ names, names ∈ files ↔ names ≠ [] ∧ (∀ n ∈ names, IsFileName n ∧ allowed n = true) ∧
        fs.isFile (root.below names) = true := by
  obtain ⟨evs, hwalk, hsorted, hmem⟩ := exists_events allowed hroot
  have herror : ∀ names e, ¬ MeetsFrom fs allowed root names (.error e) :=
    fun names e h => hfault names e (fault_of_meetsFrom hfs hroot h)
  have hok : ∀ ev ∈ evs, ev.2 = .ok () := by
    rintro ⟨names, r⟩ hev
    cases r with
    | error e => exact absurd ((hmem _ _).1 hev) (herror names e)
    | ok _ => rfl
  refine ⟨evs.map (·.1), by rw [hwalk, mapM_names?_eq_ok hok], List.pairwise_map.2 hsorted, ?_⟩
  intro names
  rw [List.mem_map]
  constructor
  · rintro ⟨⟨names, r⟩, hev, rfl⟩
    cases hok _ hev
    exact isFile_of_meetsFrom hfs ((hmem _ _).1 hev)
  · rintro ⟨hne, hnames, hfile⟩
    rcases meetsFrom_of_isFile hfs hroot hne hnames hfile with hmeets | ⟨names', e, hmeets⟩
    · exact ⟨(names, .ok ()), (hmem _ _).2 hmeets, rfl⟩
    · exact absurd hmeets (herror names' e)

/-- A walk that gives files has come to no fault, and lists the allowed files. -/
theorem mem_iff_of_walk_eq_ok (hfs : fs.WellFormed) (hroot : fs.isDirectory root = true)
    {files : List (List Bytes)} (h : fs.walk allowed root = .ok files) :
    files.Pairwise (· < ·) ∧
      ∀ names, names ∈ files ↔ names ≠ [] ∧ (∀ n ∈ names, IsFileName n ∧ allowed n = true) ∧
        fs.isFile (root.below names) = true := by
  obtain ⟨files', hwalk, hfiles⟩ := walk_eq_ok hfs hroot fun names e hfault => by
    obtain ⟨e', he'⟩ := exists_walk_eq_error hfs hfault
    cases h.symm.trans he'
  cases h.symm.trans hwalk
  exact hfiles

/-- The walk ends with the first fault, if there is any. -/
theorem walk_eq_error_iff (hfs : fs.WellFormed) (hroot : fs.isDirectory root = true)
    {e : WalkError} :
    fs.walk allowed root = .error e ↔ ∃ names, Fault fs (allowed ·) root names e ∧
      ∀ names' e', Fault fs (allowed ·) root names' e' → names ≤ names' := by
  obtain ⟨evs, hwalk, hsorted, hmem⟩ := exists_events allowed hroot
  rw [hwalk, mapM_names?_eq_error_iff hsorted]
  simp only [hmem]
  constructor
  · rintro ⟨names, hfirst, hleast⟩
    refine ⟨names, fault_of_meetsFrom hfs hroot hfirst, fun names' e' hfault => ?_⟩
    rcases meetsFrom_of_fault hfs hfault with h | ⟨front, back, e'', rfl, -, h⟩
    · exact hleast names' e' h
    · exact List.le_trans (hleast front e'' h) List.le_append_left
  · rintro ⟨names, hfault, hleast⟩
    rcases meetsFrom_of_fault hfs hfault with h | ⟨front, back, e'', rfl, hback, h⟩
    · exact ⟨names, h, fun names' e' h' => hleast names' e' (fault_of_meetsFrom hfs hroot h')⟩
    · -- The names of the error that is met would be less than the least.
      have hfront := hleast front e'' (fault_of_meetsFrom hfs hroot h)
      have heq := List.le_antisymm hfront List.le_append_left
      exact absurd (by simpa using heq) hback

end StyleGuide.FileSystem
