import StyleGuide.FileSystem.Change
import StyleGuide.Proofs.FileSystem.Lookup

/-!
# Changes keep a file system well formed

An operation puts an entry only where a path leads: at a vacant place in a directory, by a name that
has no separator in it, or over a file. What it takes away, it takes away with all that stands
below.

## Main results

* `FileSystem.vacant_of_target`: what is known of a vacant place that a path leads to.
* `FileSystem.WellFormed.put`, `FileSystem.WellFormed.erase`: the two ways in which entries change.
* `FileSystem.WellFormed.makeDirectories`, `FileSystem.WellFormed.write`,
  `FileSystem.WellFormed.makeLink`, `FileSystem.WellFormed.remove`: the operations.
-/

namespace StyleGuide.FileSystem

variable {fs changed : FileSystem}

/-! ## Entries after a change -/

lemma lookup_filter {α β : Type} [BEq α] [LawfulBEq α] (p : α → Bool) (xs : List (α × β)) (a : α)
    (ha : p a = true) : (xs.filter fun x => p x.1).lookup a = xs.lookup a := by
  induction xs with
  | nil => rfl
  | cons x xs ih =>
    obtain ⟨b, y⟩ := x
    by_cases hab : a = b
    · subst hab
      simp [ha]
    · cases hb : p b <;> simp [hb, ih, List.lookup_cons, beq_eq_false_iff_ne.2 hab]

lemma entry?_put {place q : Place} {e : Entry} (hplace : place ≠ []) :
    entry? (fs.put place e) q = if q = place then some e else fs.entry? q := by
  by_cases hq : q = []
  · subst hq
    rw [if_neg hplace.symm]
    rfl
  · by_cases hqp : q = place
    · subst hqp
      rw [if_pos rfl]
      exact (if_neg hq).trans List.lookup_cons_self
    · rw [if_neg hqp]
      refine (if_neg hq).trans (.trans ?_ (if_neg hq).symm)
      rw [put, List.lookup_cons, beq_eq_false_iff_ne.2 hqp]
      exact lookup_filter (fun r => decide (r ≠ place)) _ _ (by simpa using hqp)

lemma entry?_erase {place q : Place} (hq : place.isPrefixOf q = false) :
    entry? (fs.erase place) q = fs.entry? q := by
  by_cases hnil : q = []
  · subst hnil
    rfl
  · refine (if_neg hnil).trans (.trans ?_ (if_neg hnil).symm)
    exact lookup_filter (fun r => !place.isPrefixOf r) _ _ (by simp [hq])

lemma mem_entries_of_entry {place : Place} {e : Entry} (hplace : place ≠ [])
    (h : fs.entry? place = some e) : (place, e) ∈ fs.entries :=
  (root_or_mem_entries h).resolve_left fun hroot => hplace hroot.1

namespace WellFormed

/-- With nothing but the root, a file system is well formed. -/
lemma empty (current : Place) : WellFormed { entries := [], current } := by
  constructor <;> simp

/-- An entry is put into a directory. It can take the place of another one, but not that of a
directory. -/
theorem put (hfs : fs.WellFormed) {place : Place} {e : Entry} (hplace : place ≠ [])
    (hnames : ∀ n ∈ place, IsFileName n) (hdir : fs.entry? place.dropLast = some .directory)
    (hfree : fs.entry? place ≠ some .directory)
    (hlink : ∀ target, e = .link target → 0 ∉ target.bytes) :
    (fs.put place e).WellFormed := by
  have hmem : ∀ x ∈ (fs.put place e).entries, x = (place, e) ∨ x ∈ fs.entries ∧ x.1 ≠ place := by
    intro x hx
    simpa [FileSystem.put] using hx
  refine ⟨fun x hx => ?_, fun x hx => ?_, fun x hx target htarget => ?_⟩
  · rcases hmem x hx with rfl | ⟨hx, -⟩
    · exact hnames
    · exact hfs.isFileName x hx
  · have hold : fs.entry? x.1.dropLast = some .directory := by
      rcases hmem x hx with rfl | ⟨hx, -⟩
      · exact hdir
      · exact hfs.inDirectory x hx
    rw [entry?_put hplace, if_neg, hold]
    rintro heq
    exact hfree (heq ▸ hold)
  · rcases hmem x hx with rfl | ⟨hx, -⟩
    · exact hlink target htarget
    · exact hfs.link_no_nul x hx target htarget

/-- An entry is taken away with all that stands below it. -/
theorem erase (hfs : fs.WellFormed) (place : Place) : (fs.erase place).WellFormed := by
  have hmem : ∀ x ∈ (fs.erase place).entries, x ∈ fs.entries ∧ place.isPrefixOf x.1 = false := by
    intro x hx
    simpa [FileSystem.erase] using hx
  refine ⟨fun x hx => hfs.isFileName x (hmem x hx).1, fun x hx => ?_,
    fun x hx => hfs.link_no_nul x (hmem x hx).1⟩
  obtain ⟨hold, hkept⟩ := hmem x hx
  rw [entry?_erase, hfs.inDirectory x hold]
  -- What stands in a directory below the place stands below the place itself.
  rw [Bool.eq_false_iff, ne_eq, List.isPrefixOf_iff_prefix] at hkept ⊢
  exact fun h => hkept (h.trans (List.dropLast_prefix _))

end WellFormed

/-! ## Vacant places -/

lemma not_mem_segments {p : Path} (hp : 0 ∉ p.bytes) :
    ∀ s ∈ p.segments, Path.slash ∉ s ∧ 0 ∉ s := by
  intro s hs
  refine ⟨fun hslash => ?_, fun hnul => hp (mem_of_mem_cut hs hnul)⟩
  have := not_mem_of_mem_cut _ hs hslash
  simp at this

/-- A place that is vacant is a new name in a directory. -/
lemma vacant_of_leads (hfs : fs.WellFormed) {followLast : Bool} {links : Nat} {place q : Place}
    {pieces : List Bytes} (hpieces : ∀ s ∈ pieces, Path.slash ∉ s ∧ 0 ∉ s)
    (h : fs.Leads followLast links place pieces (.ok (.vacant q))) :
    ∃ directory n, q = directory ++ [n] ∧ IsFileName n ∧
      fs.entry? directory = some .directory ∧ fs.entry? q = none := by
  generalize hr : (.ok (.vacant q) : Except FileError Target) = r at h
  induction h with
  | stay _ _ _ ih => exact ih (fun s hs => hpieces s (List.mem_cons_of_mem _ hs)) hr
  | up _ _ ih => exact ih (fun s hs => hpieces s (List.mem_cons_of_mem _ hs)) hr
  | vacant hdir hpiece hnone =>
    cases hr
    obtain ⟨hslash, hnul⟩ := hpieces _ List.mem_cons_self
    exact ⟨_, _, rfl, ⟨hpiece.ne_nil, hpiece.ne_dot, hpiece.ne_parent, hslash, hnul,
      hpiece.length_le⟩, hdir, hnone⟩
  | @link _ _ _ _ target _ _ _ hlink _ _ ih =>
    have htarget : 0 ∉ target.bytes :=
      hfs.link_no_nul _ (mem_entries_of_entry (by simp) hlink) target rfl
    refine ih (fun s hs => ?_) hr
    rcases List.mem_append.1 hs with hs | hs
    · exact not_mem_segments htarget s hs
    · exact hpieces s (List.mem_cons_of_mem _ hs)
  | name _ _ _ _ _ ih => exact ih (fun s hs => hpieces s (List.mem_cons_of_mem _ hs)) hr
  | _ => cases hr

theorem vacant_of_target (hfs : fs.WellFormed) {followLast : Bool} {p : Path} {q : Place}
    (h : fs.target followLast p = .ok (.vacant q)) :
    ∃ directory n, q = directory ++ [n] ∧ IsFileName n ∧
      fs.entry? directory = some .directory ∧ fs.entry? q = none := by
  obtain ⟨-, hnul, hleads⟩ := target_eq_ok_iff.1 h
  exact vacant_of_leads hfs (not_mem_segments (by simpa using hnul)) hleads

/-! ## The operations -/

/-- The place that a path leads to, whether anything stands there or not. -/
def Target.place : Target → Place
  | found q => q
  | vacant q => q

lemma exists_put_of_makeDirectory {p : Path} (h : fs.makeDirectory p = .ok changed) :
    ∃ place, fs.target false (withoutFinalSlashes p) = .ok (.vacant place) ∧
      changed = fs.put place .directory := by
  unfold makeDirectory at h
  rcases htarget : fs.target false (withoutFinalSlashes p) with _ | _ | place <;>
    simp only [htarget] at h <;> cases h
  exact ⟨place, rfl, rfl⟩

lemma exists_put_of_makeLink {p target : Path} (h : fs.makeLink p target = .ok changed) :
    ∃ place, fs.target false p = .ok (.vacant place) ∧ changed = fs.put place (.link target) := by
  unfold makeLink at h
  rcases htarget : fs.target false p with _ | _ | place <;> simp only [htarget] at h <;> cases h
  exact ⟨place, rfl, rfl⟩

/-- A file is put at a vacant place or over another file. -/
lemma exists_put_of_write {p : Path} {content : Bytes} (h : fs.write p content = .ok changed) :
    p.bytes.getLast? ≠ some Path.slash ∧
      ∃ t, fs.target true (withoutFinalSlashes p) = .ok t ∧
        changed = fs.put t.place (.file content) ∧
        (t = .vacant t.place ∨ ∃ old, fs.entry? t.place = some (.file old)) := by
  unfold write at h
  cases htarget : fs.target true (withoutFinalSlashes p) with
  | error e => simp [htarget] at h
  | ok t =>
    by_cases hlast : p.bytes.getLast? = some Path.slash
    · simp [htarget, hlast] at h
    refine ⟨hlast, t, rfl, ?_⟩
    cases t with
    | vacant place =>
      simp only [htarget, if_neg hlast] at h
      cases h
      exact ⟨rfl, .inl rfl⟩
    | found place =>
      rcases hfile : fs.entry? place with _ | old | _ | _ <;>
        simp only [htarget, if_neg hlast, hfile] at h <;> cases h
      exact ⟨rfl, .inr ⟨old, hfile⟩⟩

namespace WellFormed

lemma put_vacant (hfs : fs.WellFormed) {followLast : Bool} {p : Path} {q : Place} {e : Entry}
    (h : fs.target followLast p = .ok (.vacant q))
    (hlink : ∀ target, e = .link target → 0 ∉ target.bytes) : (fs.put q e).WellFormed := by
  obtain ⟨directory, n, rfl, hn, hdir, hnone⟩ := vacant_of_target hfs h
  have hnames := hfs.isFileName_of_entry hdir
  refine hfs.put (by simp) (fun m hm => ?_) (by simpa using hdir) (by simp [hnone]) hlink
  rcases List.mem_append.1 hm with hm | hm
  · exact hnames m hm
  · cases List.mem_singleton.1 hm
    exact hn

theorem makeDirectory (hfs : fs.WellFormed) {p : Path} (h : fs.makeDirectory p = .ok changed) :
    changed.WellFormed := by
  obtain ⟨place, hvacant, rfl⟩ := exists_put_of_makeDirectory h
  exact hfs.put_vacant hvacant (by simp)

theorem makeDirectories (hfs : fs.WellFormed) (p : Path) : (fs.makeDirectories p).1.WellFormed := by
  unfold FileSystem.makeDirectories
  generalize p.bytes.length + 1 = fuel
  fun_induction makeDirectoriesWithin fuel fs p with
  | case3 fs fuel p hne changed hmade => exact hfs.makeDirectory hmade
  | case5 fs fuel p hne hmissing above habove changed e hrest ih => simpa [hrest] using ih hfs
  | case6 fs fuel p hne hmissing above habove changed hrest done hdone ih =>
    have hchanged : changed.WellFormed := by simpa [hrest] using ih hfs
    exact hchanged.makeDirectory hdone
  | case7 fs fuel p hne hmissing above habove changed hrest e he ih => simpa [hrest] using ih hfs
  | _ => exact hfs

theorem write (hfs : fs.WellFormed) {p : Path} {content : Bytes}
    (h : fs.write p content = .ok changed) : changed.WellFormed := by
  obtain ⟨-, t, ht, rfl, hvacant | ⟨old, hold⟩⟩ := exists_put_of_write h
  · exact hfs.put_vacant (hvacant ▸ ht) (by simp)
  · refine hfs.put ?_ (hfs.isFileName_of_entry hold) (hfs.entry?_dropLast hold) (by simp [hold])
      (by simp)
    intro hnil
    rw [hnil] at hold
    cases hold

theorem makeLink (hfs : fs.WellFormed) {p target : Path} (htarget : 0 ∉ target.bytes)
    (h : fs.makeLink p target = .ok changed) : changed.WellFormed := by
  obtain ⟨place, hvacant, rfl⟩ := exists_put_of_makeLink h
  exact hfs.put_vacant hvacant (by simpa using htarget)

theorem remove (hfs : fs.WellFormed) {p : Path} (h : fs.remove p = .ok changed) :
    changed.WellFormed := by
  unfold FileSystem.remove at h
  rcases htarget : fs.target false p with _ | place | _ <;> simp only [htarget] at h <;> cases h
  exact hfs.erase place

end WellFormed

end StyleGuide.FileSystem
