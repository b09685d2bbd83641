import StyleGuide.Proofs.FileSystem.Change
import StyleGuide.Proofs.FileSystem.Shape
import StyleGuide.Proofs.Path.Above

/-!
# File systems that grow

To write a file, directories are made where they are missing, and then the content is put at one
place. Nothing is taken away on the way, and nothing becomes anything else: a path that led
somewhere still leads there, and what is new stands where a path of the request leads.

## Main definitions

* `FileSystem.Keeps`: all that stands in one file system stands in another, the content of files
  apart.
* `FileSystem.Adds`: directories are made, one after the other, where certain paths lead.
* `FileSystem.WritesOnly`: a file is written, in directories that may have to be made, and that is
  all.

## Main results

* `FileSystem.Keeps.follow`: where paths lead afterwards.
* `FileSystem.adds_makeDirectories`: making directories does nothing else.
* `FileSystem.Adds.entry?_eq_or`: what stands at each place behind it.
* `FileSystem.exists_of_write`: writing a file changes one place.
* `FileSystem.Adds.exists_writesOnly`: making directories above a file and writing it does no more.
-/

namespace StyleGuide

namespace FileSystem

/-- All that stands in `fs` stands in `fs'` as well, and files are the only thing whose content may
have changed. -/
structure Keeps (fs fs' : FileSystem) : Prop where
  shape : ∀ q e, fs.entry? q = some e → ∃ e', fs'.entry? q = some e' ∧ e'.shape = e.shape
  current : fs'.current = fs.current
  unreadable : fs'.unreadable = fs.unreadable

variable {fs fs' fs'' : FileSystem} {links : Nat} {place q : Place} {pieces : List Bytes}

namespace Keeps

lemma refl (fs : FileSystem) : Keeps fs fs := ⟨fun _ e h => ⟨e, h, rfl⟩, rfl, rfl⟩

lemma trans (h : Keeps fs fs') (h' : Keeps fs' fs'') : Keeps fs fs'' := by
  refine ⟨fun q e he => ?_, h'.current.trans h.current, h'.unreadable.trans h.unreadable⟩
  obtain ⟨e', he', hshape⟩ := h.shape q e he
  obtain ⟨e'', he'', hshape'⟩ := h'.shape q e' he'
  exact ⟨e'', he'', hshape'.trans hshape⟩

/-- A new entry may stand at a vacant place, or in the place of one of its shape. -/
lemma put {e : Entry} (hplace : place ≠ [])
    (h : ∀ old, fs.entry? place = some old → e.shape = old.shape) : Keeps fs (fs.put place e) := by
  refine ⟨fun q old hold => ?_, rfl, rfl⟩
  rw [entry?_put hplace]
  by_cases hq : q = place
  · subst hq
    exact ⟨e, if_pos rfl, h old hold⟩
  · exact ⟨old, by rw [if_neg hq, hold], rfl⟩

lemma putFile {content : Bytes} (hplace : place ≠ [])
    (h : ∀ old, fs.entry? place = some old → ∃ bytes, old = .file bytes) :
    Keeps fs (fs.put place (.file content)) := by
  refine .put hplace fun old hold => ?_
  obtain ⟨bytes, rfl⟩ := h old hold
  rfl

/-- What is no file is not changed at all. -/
lemma entry?_eq (h : Keeps fs fs') {e : Entry} (he : fs.entry? q = some e)
    (hfile : ∀ content, e ≠ .file content) : fs'.entry? q = some e := by
  obtain ⟨e', he', hshape⟩ := h.shape q e he
  rw [he']
  cases e <;> cases e' <;> simp_all [Entry.shape]

/-- What is no link becomes none. -/
lemma exists_entry? (h : Keeps fs fs') {e : Entry} (he : fs.entry? q = some e)
    (hlink : ∀ target, e ≠ .link target) :
    ∃ e', fs'.entry? q = some e' ∧ ∀ target, e' ≠ .link target := by
  obtain ⟨e', he', hshape⟩ := h.shape q e he
  refine ⟨e', he', ?_⟩
  rintro target rfl
  cases e <;> simp_all [Entry.shape]

/-! ### Paths -/

/-- Whatever can be followed can still be followed, and leads to the same place, be it that
something other than a link stands there now. -/
theorem leads (h : Keeps fs fs') {followLast : Bool} {t : Target}
    (hleads : fs.Leads followLast links place pieces (.ok t))
    (hnew : t = .vacant t.place → ∃ e, fs'.entry? t.place = some e ∧ ∀ target, e ≠ .link target) :
    fs'.Leads followLast links place pieces (.ok (.found t.place)) := by
  have hdirectory : ∀ {q}, fs.entry? q = some .directory → fs'.entry? q = some .directory :=
    fun hq => h.entry?_eq hq (by simp)
  generalize hr : (.ok t : Except FileError Target) = r at hleads
  induction hleads with
  | done links place =>
    cases hr
    exact .done links place
  | stay hdir hstay _ ih => exact .stay (hdirectory hdir) hstay (ih hr)
  | up hdir _ ih => exact .up (hdirectory hdir) (ih hr)
  | vacant hdir hpiece hnone =>
    cases hr
    obtain ⟨e, he, hlink⟩ := hnew rfl
    exact .name (hdirectory hdir) hpiece he hlink (.done _ _)
  | lastLink hdir hpiece hlink hlast =>
    cases hr
    exact .lastLink (hdirectory hdir) hpiece (h.entry?_eq hlink (by simp)) hlast
  | link hdir hpiece hlink hlast _ ih =>
    exact .link (hdirectory hdir) hpiece (h.entry?_eq hlink (by simp)) hlast (ih hr)
  | name hdir hpiece he hlink _ ih =>
    obtain ⟨e', he', hlink'⟩ := h.exists_entry? he hlink
    exact .name (hdirectory hdir) hpiece he' hlink' (ih hr)
  | _ => cases hr

theorem target (h : Keeps fs fs') {followLast : Bool} {p : Path} {t : Target}
    (ht : fs.target followLast p = .ok t)
    (hnew : t = .vacant t.place → ∃ e, fs'.entry? t.place = some e ∧ ∀ target, e ≠ .link target) :
    fs'.target followLast p = .ok (.found t.place) := by
  obtain ⟨hne, hnul, hleads⟩ := target_eq_ok_iff.1 ht
  refine target_eq_ok_iff.2 ⟨hne, hnul, ?_⟩
  rw [h.current]
  exact h.leads hleads hnew

theorem resolve (h : Keeps fs fs') {p : Path} (hp : fs.resolve p = .ok q) :
    fs'.resolve p = .ok q :=
  resolve_eq_ok_iff.2 (h.target (resolve_eq_ok_iff.1 hp) nofun)

end Keeps

/-! ## Separators at the end of a path -/

lemma withoutFinalSlashes_eq {p : Path} (h : p.bytes.getLast? ≠ some Path.slash) :
    withoutFinalSlashes p = p := by
  have hkept : p.bytes.reverse.dropWhile (· == Path.slash) = p.bytes.reverse := by
    cases hbytes : p.bytes.reverse with
    | nil => rfl
    | cons b bs =>
      rw [← List.head?_reverse, hbytes] at h
      rw [List.dropWhile_cons_of_neg (by simpa using h)]
  rw [withoutFinalSlashes, hkept, List.reverse_reverse]
  split <;> rfl

/-- A directory is found by the same path with a separator behind it. -/
lemma resolve_concat_slash {bs : Bytes} (h : fs.resolve ⟨bs⟩ = .ok q)
    (hdir : fs.entry? q = some .directory) : fs.resolve ⟨bs ++ [Path.slash]⟩ = .ok q := by
  rw [resolve_eq_ok_iff, target_eq_ok_iff] at h ⊢
  obtain ⟨hne, hzero, hleads⟩ := h
  have hsegments : Path.segments ⟨bs ++ [Path.slash]⟩ = Path.segments ⟨bs⟩ ++ [[]] :=
    cut_append_cons bs [] (by simp)
  have habsolute : Path.isAbsolute ⟨bs ++ [Path.slash]⟩ = Path.isAbsolute ⟨bs⟩ := by
    rw [Path.isAbsolute, Path.isAbsolute, List.head?_append_of_ne_nil _ hne]
  have hnul : (bs ++ [Path.slash]).contains 0 = bs.contains 0 := by
    simp [Path.slash]
  obtain ⟨left, hleft⟩ := hleads.append
  refine ⟨by simp, hnul.trans hzero, ?_⟩
  rw [hsegments, habsolute]
  exact hleft (.inl rfl) (.stay hdir (.inl rfl) (.done _ _))

/-- A directory is found with all the separators at the end of the path. -/
lemma resolve_of_withoutFinalSlashes {p : Path} (h : fs.resolve (withoutFinalSlashes p) = .ok q)
    (hdir : fs.entry? q = some .directory) : fs.resolve p = .ok q := by
  obtain ⟨bytes⟩ := p
  induction bytes using List.reverseRecOn with
  | nil => exact h
  | append_singleton bs b ih =>
    by_cases hb : b = Path.slash
    · subst hb
      by_cases hkept : bs.reverse.dropWhile (· == Path.slash) = []
      · simpa [withoutFinalSlashes, hkept] using h
      · have hsame : withoutFinalSlashes ⟨bs ++ [Path.slash]⟩ = withoutFinalSlashes ⟨bs⟩ := by
          simp [withoutFinalSlashes, hkept]
        exact resolve_concat_slash (ih (hsame ▸ h)) hdir
    · rwa [withoutFinalSlashes_eq (by simpa using hb)] at h

/-! ## Making directories -/

/-- Directories are made one after the other, each where a path with the property `named` leads. -/
inductive Adds (named : Path → Prop) (fs : FileSystem) : FileSystem → Prop
  | refl : Adds named fs fs
  | step {fs' : FileSystem} {p : Path} {place : Place} : Adds named fs fs' → named p →
      fs'.target false (withoutFinalSlashes p) = .ok (.vacant place) →
      Adds named fs (fs'.put place .directory)

variable {named : Path → Prop} {p : Path}

lemma Adds.trans (h : Adds named fs fs') (h' : Adds named fs' fs'') : Adds named fs fs'' := by
  induction h' with
  | refl => exact h
  | step _ hp hvacant ih => exact ih.step hp hvacant

lemma adds_of_makeDirectory {changed : FileSystem} (hp : named p)
    (h : fs.makeDirectory p = .ok changed) : Adds named fs changed := by
  obtain ⟨place, hvacant, rfl⟩ := exists_put_of_makeDirectory h
  exact .step .refl hp hvacant

/-- Making a directory with those above it adds nothing but directories that the path and the paths
above it lead to. That holds also where the last one cannot be made. -/
theorem adds_makeDirectories (habove : ∀ p q, named p → p.parent? = some q → named q)
    (hp : named p) : Adds named fs (fs.makeDirectories p).1 := by
  unfold makeDirectories
  generalize p.bytes.length + 1 = fuel
  fun_induction makeDirectoriesWithin fuel fs p with
  | case3 fuel fs p hne changed hmade => exact adds_of_makeDirectory hp hmade
  | case5 fuel fs p hne hmissing above hparent changed e hrest ih =>
    simpa [hrest] using ih (habove _ _ hp hparent)
  | case6 fuel fs p hne hmissing above hparent changed hrest done hdone ih =>
    have hchanged : Adds named fs changed := by simpa [hrest] using ih (habove _ _ hp hparent)
    exact hchanged.trans (adds_of_makeDirectory hp hdone)
  | case7 fuel fs p hne hmissing above hparent changed hrest e he ih =>
    simpa [hrest] using ih (habove _ _ hp hparent)
  | _ => exact .refl

lemma Leads.entry?_of_vacant {followLast : Bool}
    (h : fs.Leads followLast links place pieces (.ok (.vacant q))) :
    q ≠ [] ∧ fs.entry? q = none := by
  generalize hr : (.ok (.vacant q) : Except FileError Target) = r at h
  induction h with
  | vacant _ _ hnone =>
    cases hr
    exact ⟨by simp, hnone⟩
  | stay _ _ _ ih | up _ _ ih | link _ _ _ _ _ ih | name _ _ _ _ _ ih => exact ih hr
  | _ => cases hr

/-- Nothing stands at a vacant place. -/
lemma entry?_of_vacant {followLast : Bool} (h : fs.target followLast p = .ok (.vacant q)) :
    q ≠ [] ∧ fs.entry? q = none :=
  (target_eq_ok_iff.1 h).2.2.entry?_of_vacant

namespace Adds

theorem keeps (h : Adds named fs fs') : Keeps fs fs' := by
  induction h with
  | refl => exact .refl fs
  | step _ _ hvacant ih =>
    obtain ⟨hne, hnone⟩ := entry?_of_vacant hvacant
    exact ih.trans (.put hne (by simp [hnone]))

/-- The new directory is found by the path that it was made for. -/
lemma resolve_put {place : Place}
    (h : fs.target false (withoutFinalSlashes p) = .ok (.vacant place)) :
    (fs.put place .directory).resolve p = .ok place := by
  obtain ⟨hne, hnone⟩ := entry?_of_vacant h
  have hnew : entry? (fs.put place .directory) place = some .directory := by
    rw [entry?_put hne, if_pos rfl]
  have hkeeps : Keeps fs (fs.put place .directory) := .put hne (by simp [hnone])
  have htarget : (fs.put place .directory).target false (withoutFinalSlashes p) =
      .ok (.found place) :=
    hkeeps.target h fun _ => ⟨.directory, hnew, by simp⟩
  have hlink : ¬ (fs.put place .directory).IsLink (withoutFinalSlashes p) := by
    rintro ⟨q, target, hq, hentry⟩
    rw [htarget] at hq
    cases hq
    rw [hnew] at hentry
    cases hentry
  rw [target_eq_of_not_isLink hlink] at htarget
  exact resolve_of_withoutFinalSlashes (resolve_eq_ok_iff.2 htarget) hnew

/-- What stands at a place stood there before, or it is a directory that has been made. -/
theorem entry?_eq_or (h : Adds named fs fs') (q : Place) :
    fs'.entry? q = fs.entry? q ∨
      fs.entry? q = none ∧ fs'.entry? q = some .directory ∧
        ∃ p, named p ∧ fs'.resolve p = .ok q := by
  induction h with
  | refl => exact .inl rfl
  | @step fs' p place _ hp hvacant ih =>
    obtain ⟨hne, hnone⟩ := entry?_of_vacant hvacant
    have hkeeps : Keeps fs' (fs'.put place .directory) := .put hne (by simp [hnone])
    rw [entry?_put hne]
    by_cases hq : q = place
    · subst hq
      rw [hnone] at ih
      rw [if_pos rfl]
      have hfs : fs.entry? q = none := by
        rcases ih with ih | ⟨hfs, -⟩
        · exact ih.symm
        · exact hfs
      exact .inr ⟨hfs, rfl, p, hp, resolve_put hvacant⟩
    · rw [if_neg hq]
      rcases ih with ih | ⟨hfs, hdir, p', hp', hresolve⟩
      · exact .inl ih
      · exact .inr ⟨hfs, hdir, p', hp', hkeeps.resolve hresolve⟩

end Adds

/-! ## Writing a file -/

/-- A file is put where the path leads, at a vacant place or over another file. -/
lemma exists_target_of_write {content : Bytes} (h : fs.write p content = .ok fs') :
    ∃ t, fs.target true p = .ok t ∧ fs' = fs.put t.place (.file content) ∧ t.place ≠ [] ∧
      ∀ e, fs.entry? t.place = some e → ∃ old, e = .file old := by
  obtain ⟨hlast, t, ht, rfl, hfree⟩ := exists_put_of_write h
  rw [withoutFinalSlashes_eq hlast] at ht
  refine ⟨t, ht, rfl, ?_⟩
  rcases hfree with hvacant | ⟨old, hold⟩
  · obtain ⟨hne, hnone⟩ := entry?_of_vacant (hvacant ▸ ht)
    exact ⟨hne, by simp [hnone]⟩
  · refine ⟨?_, by simp [hold]⟩
    intro hnil
    rw [hnil] at hold
    cases hold

/-- Writing a file changes one place, to which the path leads afterwards. It is the place that the
path itself has, unless a link stands there. -/
theorem exists_of_write {content : Bytes} (h : fs.write p content = .ok fs') :
    ∃ place, place ≠ [] ∧ fs' = fs.put place (.file content) ∧
      (∀ e, fs.entry? place = some e → ∃ old, e = .file old) ∧
      fs'.resolve p = .ok place ∧ (¬ fs.IsLink p → fs'.target false p = .ok (.found place)) := by
  obtain ⟨t, ht, rfl, hne, hfile⟩ := exists_target_of_write h
  have hnew : entry? (fs.put t.place (.file content)) t.place = some (.file content) := by
    rw [entry?_put hne, if_pos rfl]
  have hkeeps : Keeps fs (fs.put t.place (.file content)) := .putFile hne hfile
  have htarget : ∀ followLast, fs.target followLast p = .ok t →
      (fs.put t.place (.file content)).target followLast p = .ok (.found t.place) :=
    fun followLast h => hkeeps.target h fun _ => ⟨_, hnew, by simp⟩
  refine ⟨t.place, hne, rfl, hfile, resolve_eq_ok_iff.2 (htarget true ht), fun hlink => ?_⟩
  exact htarget false ((target_eq_of_not_isLink hlink).trans ht)

/-! ## A file and the directories above it -/

/-- The path `p` leads to a file with the given content at `place`, where nothing or another file
stood. All that is new besides are directories above `p`, and nothing else has changed. -/
structure WritesOnly (fs fs' : FileSystem) (p : Path) (content : Bytes) (place : Place) : Prop where
  leads : fs'.resolve p = .ok place
  holds : fs'.entry? place = some (.file content)
  replaced : ∀ e, fs.entry? place = some e → ∃ old, e = .file old
  elsewhere : ∀ q, q ≠ place → fs'.entry? q = fs.entry? q ∨
    fs.entry? q = none ∧ fs'.entry? q = some .directory ∧
      ∃ above : Path, above.IsAbove p ∧ above.bytes <+: p.bytes ∧ fs'.resolve above = .ok q
  current : fs'.current = fs.current
  unreadable : fs'.unreadable = fs.unreadable

/-- Where directories above a path have been made and a file is written, no more has been done. The
file is at the place of the path itself, unless a link is there once the directories are. -/
theorem Adds.exists_writesOnly {grown : FileSystem} {content : Bytes}
    (hgrown : Adds (·.IsAbove p) fs grown) (h : grown.write p content = .ok fs') :
    ∃ place, WritesOnly fs fs' p content place ∧
      (¬ grown.IsLink p → fs'.target false p = .ok (.found place)) := by
  obtain ⟨place, hne, rfl, hfile, hleads, htarget⟩ := exists_of_write h
  have hkeeps : Keeps grown (grown.put place (.file content)) := .putFile hne hfile
  have hholds : entry? (grown.put place (.file content)) place = some (.file content) := by
    rw [entry?_put hne, if_pos rfl]
  refine ⟨place, ⟨hleads, hholds, ?_, ?_, hgrown.keeps.current, hgrown.keeps.unreadable⟩, htarget⟩
  · -- A directory that has just been made is no file.
    intro e he
    rcases hgrown.entry?_eq_or place with hsame | ⟨hnone, -⟩
    · exact hfile e (hsame.trans he)
    · simp [hnone] at he
  · intro q hq
    rw [entry?_put hne, if_neg hq]
    rcases hgrown.entry?_eq_or q with hsame | ⟨hnone, hdir, above, habove, hresolve⟩
    · exact .inl hsame
    · exact .inr ⟨hnone, hdir, above, habove, habove.isPrefix, hkeeps.resolve hresolve⟩

end FileSystem

end StyleGuide
