import Mathlib.Tactic.Common
import Mathlib.Tactic.Ring
import StyleGuide.Proofs.FileSystem.Lookup
import StyleGuide.Proofs.Sequence

/-!
# What a walk meets

A walk meets files, and errors that end it. Both are listed here in the order in which the walk
comes to them, without an end at the first error. The names that lead to them ascend strictly, so
the first error of a walk is the one with the least names. A directory that may not be read is met
as an error itself, and nothing is met below it.

The walk has room for a limited number of directories one inside the other. A directory that is
entered by its own name lies deeper than the one around it, and one that is entered by a link has
not been visited before, so the room is never used up.

## Main definitions

* `FileSystem.Meets`, `FileSystem.MeetsFrom`: what the walk meets below a directory, and from the
  path that it starts from, as relations.
* `FileSystem.events`: the list of all that the walk meets.

## Main results

* `FileSystem.walkWithin_eq_mapM`: the walk gives the files, or the first error.
* `FileSystem.pairwise_events`: the names ascend.
* `FileSystem.mem_events_iff`: the list holds what the walk meets, whatever the file system.
* `FileSystem.walk_eq_mapM`: the same for the walk from a path.
-/

namespace StyleGuide.FileSystem

/-- What a walk comes to: names, and the error that stands there, if it is no file. -/
abbrev Event := List Bytes × Except WalkError Unit

/-- What the walk meets below the innermost visited directory, by the names that lead there. -/
inductive Meets (fs : FileSystem) (allowed : Bytes → Bool) :
    List Visit → Visit → List Bytes → Except WalkError Unit → Prop
  /-- The directory itself may not be read. -/
  | closed {outer : List Visit} {visit : Visit} :
      visit.place ∈ fs.unreadable →
      Meets fs allowed outer visit [] (.error (.unreadable visit.path .permissionDenied))
  /-- The entry cannot be looked at. -/
  | error {outer : List Visit} {visit : Visit} {n : Bytes} {e : WalkError} :
      visit.place ∉ fs.unreadable → n ∈ fs.names visit.place →
      fs.lookInto (visit :: outer) (visit.path.join ⟨n⟩) (visit.place ++ [n]) = .error e →
      Meets fs allowed outer visit [n] (.error e)
  /-- The entry is a file. -/
  | file {outer : List Visit} {visit : Visit} {n : Bytes} :
      visit.place ∉ fs.unreadable → n ∈ fs.names visit.place → allowed n = true →
      fs.lookInto (visit :: outer) (visit.path.join ⟨n⟩) (visit.place ++ [n]) = .ok .file →
      Meets fs allowed outer visit [n] (.ok ())
  /-- The entry is a directory, and there is something to meet below it. -/
  | inside {outer : List Visit} {visit : Visit} {n : Bytes} {place : Place} {names : List Bytes}
      {r : Except WalkError Unit} :
      visit.place ∉ fs.unreadable → n ∈ fs.names visit.place → allowed n = true →
      fs.lookInto (visit :: outer) (visit.path.join ⟨n⟩) (visit.place ++ [n]) =
        .ok (.directory place) →
      Meets fs allowed (visit :: outer) ⟨visit.path.join ⟨n⟩, place⟩ names r →
      Meets fs allowed outer visit (n :: names) r

/-- What the walk meets that starts from a path. -/
inductive MeetsFrom (fs : FileSystem) (allowed : Bytes → Bool) (root : Path) :
    List Bytes → Except WalkError Unit → Prop
  /-- There is no walk, since what the path leads to cannot be looked into. -/
  | error {start : Place} {e : WalkError} :
      fs.target false root = .ok (.found start) → fs.lookInto [] root start = .error e →
      MeetsFrom fs allowed root [] (.error e)
  /-- The path leads to a directory. -/
  | inside {start place : Place} {names : List Bytes} {r : Except WalkError Unit} :
      fs.target false root = .ok (.found start) →
      fs.lookInto [] root start = .ok (.directory place) →
      Meets fs allowed [] ⟨root, place⟩ names r → MeetsFrom fs allowed root names r

/-- What there is at one place of the walk, by what stands there; `inside` is what is met in a
directory. -/
def eventsAt (names : List Bytes) (isAllowed : Bool) (inside : Place → List Event) :
    Except WalkError Found → List Event
  | .error e => [(names, .error e)]
  | .ok .file => if isAllowed then [(names, .ok ())] else []
  | .ok (.directory place) => if isAllowed then inside place else []

/-- All that the walk meets below the innermost visited directory. -/
def events (fs : FileSystem) (allowed : Bytes → Bool) :
    Nat → List Visit → Visit → List Bytes → List Event
  | 0, _, _, _ => []
  | fuel + 1, outer, visit, trail =>
    match fs.list visit.place with
    | .error cause => [(trail, .error (.unreadable visit.path cause))]
    | .ok names => names.flatMap fun n =>
      let path := visit.path.join ⟨n⟩
      eventsAt (trail ++ [n]) (allowed n)
        (fun place => events fs allowed fuel (visit :: outer) ⟨path, place⟩ (trail ++ [n]))
        (fs.lookInto (visit :: outer) path (visit.place ++ [n]))

/-- The names of an event, if it is a file. -/
def Event.names? (ev : Event) : Except WalkError (List Bytes) := ev.2.map fun _ => ev.1

variable {fs : FileSystem} {allowed : Bytes → Bool}

/-! ## The walk and its events -/

lemma mapM_flatMap {ε α β γ : Type} {f : α → Except ε (List γ)} {g : α → List β}
    {h : β → Except ε γ} (hfg : ∀ a, f a = (g a).mapM h) (as : List α) :
    (do let below ← as.mapM f; pure below.flatten) = (as.flatMap g).mapM h := by
  induction as with
  | nil => rfl
  | cons a as ih =>
    rw [List.mapM_cons, List.flatMap_cons, List.mapM_append, ← ih, hfg]
    simp

/-- The walk gives the files, or the first error. -/
theorem walkWithin_eq_mapM (fuel : Nat) (outer : List Visit) (visit : Visit)
    (trail : List Bytes) :
    fs.walkWithin allowed fuel outer visit trail =
      (fs.events allowed fuel outer visit trail).mapM Event.names? := by
  induction fuel generalizing outer visit trail with
  | zero => rfl
  | succ fuel ih =>
    rw [walkWithin, events]
    cases fs.list visit.place with
    | error cause => rfl
    | ok names =>
      refine mapM_flatMap (fun n => ?_) names
      dsimp only
      cases fs.lookInto (visit :: outer) (visit.path.join ⟨n⟩) (visit.place ++ [n]) with
      | error e => rfl
      | ok found =>
        cases found with
        | file => cases allowed n <;> rfl
        | directory place =>
          cases allowed n with
          | false => rfl
          | true => exact ih _ _ _

/-! ## The order of the events -/

lemma mem_eventsAt_iff {names : List Bytes} {isAllowed : Bool} {inside : Place → List Event}
    {found : Except WalkError Found} {ev : Event} :
    ev ∈ eventsAt names isAllowed inside found ↔
      (∃ e, found = .error e ∧ ev = (names, .error e)) ∨
      (isAllowed = true ∧ found = .ok .file ∧ ev = (names, .ok ())) ∨
      (isAllowed = true ∧ ∃ place, found = .ok (.directory place) ∧ ev ∈ inside place) := by
  cases found with
  | error e => simp [eventsAt]
  | ok found => cases found <;> cases isAllowed <;> simp [eventsAt]

lemma pairwise_eventsAt {R : Event → Event → Prop} {names : List Bytes} {isAllowed : Bool}
    {inside : Place → List Event} (h : ∀ place, (inside place).Pairwise R)
    (found : Except WalkError Found) : (eventsAt names isAllowed inside found).Pairwise R := by
  cases found with
  | error e => simp [eventsAt]
  | ok found => cases found <;> cases isAllowed <;> simp [eventsAt, h]

/-- The events of a directory: its own, where it may not be read, or else those of its names. -/
lemma mem_events_succ_iff {fuel : Nat} {outer : List Visit} {visit : Visit} {trail : List Bytes}
    {ev : Event} :
    ev ∈ fs.events allowed (fuel + 1) outer visit trail ↔
      (visit.place ∈ fs.unreadable ∧
        ev = (trail, .error (.unreadable visit.path .permissionDenied))) ∨
      (visit.place ∉ fs.unreadable ∧ ∃ n ∈ fs.names visit.place,
        ev ∈ eventsAt (trail ++ [n]) (allowed n)
          (fun place => fs.events allowed fuel (visit :: outer) ⟨visit.path.join ⟨n⟩, place⟩
            (trail ++ [n]))
          (fs.lookInto (visit :: outer) (visit.path.join ⟨n⟩) (visit.place ++ [n]))) := by
  rw [events, list]
  by_cases hclosed : visit.place ∈ fs.unreadable <;> simp [hclosed, List.mem_flatMap]

/-- Every event stands below the directory, or at it. -/
lemma exists_append_of_mem_events {fuel : Nat} {outer : List Visit} {visit : Visit}
    {trail : List Bytes} {ev : Event} (h : ev ∈ fs.events allowed fuel outer visit trail) :
    ∃ names, ev.1 = trail ++ names := by
  induction fuel generalizing outer visit trail with
  | zero => cases h
  | succ fuel ih =>
    obtain ⟨-, rfl⟩ | ⟨-, n, -, h⟩ := mem_events_succ_iff.1 h
    · exact ⟨[], (List.append_nil trail).symm⟩
    obtain ⟨e, -, rfl⟩ | ⟨-, -, rfl⟩ | ⟨-, place, -, h⟩ := mem_eventsAt_iff.1 h
    · exact ⟨[n], rfl⟩
    · exact ⟨[n], rfl⟩
    · obtain ⟨names, hev⟩ := ih h
      exact ⟨n :: names, by simp [hev]⟩

/-- The names of the events ascend. -/
theorem pairwise_events (fuel : Nat) (outer : List Visit) (visit : Visit) (trail : List Bytes) :
    (fs.events allowed fuel outer visit trail).Pairwise fun a b => a.1 < b.1 := by
  induction fuel generalizing outer visit trail with
  | zero => exact .nil
  | succ fuel ih =>
    rw [events, list]
    by_cases hclosed : visit.place ∈ fs.unreadable
    · rw [if_pos hclosed]
      exact List.pairwise_singleton _ _
    rw [if_neg hclosed, List.pairwise_flatMap]
    refine ⟨fun n _ => pairwise_eventsAt (fun place => ih _ _ _) _, ?_⟩
    -- The events of two names differ at these names.
    have hat : ∀ n ev, ev ∈ eventsAt (trail ++ [n]) (allowed n)
        (fun place => fs.events allowed fuel (visit :: outer) ⟨visit.path.join ⟨n⟩, place⟩
          (trail ++ [n]))
        (fs.lookInto (visit :: outer) (visit.path.join ⟨n⟩) (visit.place ++ [n])) →
        ∃ names, ev.1 = trail ++ n :: names := by
      intro n ev h
      obtain ⟨e, -, rfl⟩ | ⟨-, -, rfl⟩ | ⟨-, place, -, h⟩ := mem_eventsAt_iff.1 h
      · exact ⟨[], rfl⟩
      · exact ⟨[], rfl⟩
      · obtain ⟨names, hev⟩ := exists_append_of_mem_events h
        exact ⟨names, by simp [hev]⟩
    refine (pairwise_names fs visit.place).imp fun {m n} hmn a ha b hb => ?_
    obtain ⟨as, ha⟩ := hat m a ha
    obtain ⟨bs, hb⟩ := hat n b hb
    rw [ha, hb]
    exact List.append_left_lt (List.cons_lt_cons_iff.2 (.inl hmn))

/-! ## Files or the first error -/

lemma mapM_names?_eq_ok {evs : List Event} (h : ∀ ev ∈ evs, ev.2 = .ok ()) :
    evs.mapM Event.names? = .ok (evs.map (·.1)) :=
  mapM_eq_pure_map fun ev hev => by rw [Event.names?, h ev hev]; rfl

lemma exists_mapM_names?_eq_error {evs : List Event} {names : List Bytes} {e : WalkError}
    (h : (names, .error e) ∈ evs) : ∃ e', evs.mapM Event.names? = .error e' :=
  exists_mapM_eq_error h rfl

/-- In ascending events, the first error is the one with the least names. -/
lemma mapM_names?_eq_error_iff {evs : List Event} (hevs : evs.Pairwise fun a b => a.1 < b.1)
    {e : WalkError} :
    evs.mapM Event.names? = .error e ↔
      ∃ names, (names, .error e) ∈ evs ∧
        ∀ names' e', (names', .error e') ∈ evs → names ≤ names' := by
  rw [mapM_eq_error_iff]
  constructor
  · rintro ⟨before, ⟨names, r⟩, after, rfl, hbefore, hr⟩
    obtain rfl : r = .error e := map_eq_error_iff.1 hr
    refine ⟨names, by simp, fun names' e' h => ?_⟩
    rcases List.mem_append.1 h with h | h
    · obtain ⟨_, hok⟩ := hbefore _ h
      cases hok
    rcases List.mem_cons.1 h with h | h
    · cases h
      exact List.le_refl _
    · have hafter := (List.pairwise_cons.1 (List.pairwise_append.1 hevs).2.1).1
      exact List.le_of_lt (hafter _ h)
  · rintro ⟨names, hmem, hleast⟩
    obtain ⟨before, after, rfl⟩ := List.append_of_mem hmem
    refine ⟨before, _, after, rfl, ?_, rfl⟩
    rintro ⟨names', r⟩ h
    cases r with
    | ok _ => exact ⟨names', rfl⟩
    | error e' =>
      have hlt := (List.pairwise_append.1 hevs).2.2 _ h _ List.mem_cons_self
      exact absurd hlt (hleast names' e' (List.mem_append_left _ h))

/-! ## Room for nested directories -/

/-- The places that a link can lead to and that are not visited yet, the root among them. -/
def unvisited (fs : FileSystem) : List Visit → List Place
  | [] => [] :: fs.entries.map (·.1)
  | v :: visits => (unvisited fs visits).filter (· ≠ v.place)

lemma mem_unvisited_iff {visits : List Visit} {q : Place} :
    q ∈ fs.unvisited visits ↔
      (q = [] ∨ q ∈ fs.entries.map (·.1)) ∧ ∀ v ∈ visits, v.place ≠ q := by
  induction visits with
  | nil => simp [unvisited]
  | cons v visits ih =>
    rw [unvisited, List.mem_filter, ih]
    simp only [List.mem_cons, forall_eq_or_imp, decide_eq_true_eq, ne_eq, eq_comm (a := q)]
    tauto

/-- The length of the longest place. -/
def deepest (fs : FileSystem) : Nat := (fs.entries.map (·.1.length)).foldl max 0

lemma mem_places {place : Place} {e : Entry} (h : fs.entry? place = some e) :
    place = [] ∨ place ∈ fs.entries.map (·.1) := by
  rcases root_or_mem_entries h with ⟨rfl, -⟩ | he
  · exact .inl rfl
  · exact .inr (List.mem_map_of_mem he)

lemma length_le_deepest {place : Place} {e : Entry} (h : fs.entry? place = some e) :
    place.length ≤ fs.deepest := by
  rcases mem_places h with rfl | h
  · exact Nat.zero_le _
  · obtain ⟨e, he, rfl⟩ := List.mem_map.1 h
    have hmem : e.1.length ∈ fs.entries.map (·.1.length) := List.mem_map.2 ⟨e, he, rfl⟩
    rw [deepest, List.foldl_max_eq_max (List.ne_nil_of_mem hmem)]
    exact Nat.le_trans (List.le_max_of_mem hmem) (Nat.le_max_right _ _)

/-- How many directories can still be entered one inside the other, at most. -/
def room (fs : FileSystem) (outer : List Visit) (visit : Visit) : Nat :=
  (fs.unvisited (visit :: outer)).length * (fs.deepest + 1) +
    (fs.deepest - visit.place.length)

/-- Only links cannot be looked into: those that lead nowhere, to a directory that cannot be opened,
or back to a directory that is being visited. -/
lemma lookInto_eq_error_iff {visits : List Visit} {path : Path} {place : Place} {e : WalkError} :
    fs.lookInto visits path place = .error e ↔
      (∃ target, fs.entry? place = some (.link target)) ∧
        ((∃ cause, fs.resolve path = .error cause ∧ e = .unreadable path cause) ∨
          ∃ q, fs.resolve path = .ok q ∧ fs.entry? q = some .directory ∧
            ((q ∈ fs.unreadable ∧ e = .unopened .permissionDenied) ∨
              (q ∉ fs.unreadable ∧
                ∃ v, visits.find? (·.place = q) = some v ∧ e = .loop path v.path))) := by
  unfold lookInto
  rcases hentry : fs.entry? place with _ | _ | _ | target
  · simp
  · simp
  · simp
  · cases hreal : fs.resolve path with
    | error cause => simp [eq_comm]
    | ok q =>
      rcases hq : fs.entry? q with _ | _ | _ | _
      · simp [hq]
      · simp [hq]
      · by_cases hclosed : q ∈ fs.unreadable
        · simp [hq, hclosed, eq_comm]
        · cases hv : visits.find? (·.place = q) with
          | none => simp [hq, hclosed, hv]
          | some v => simp [hq, hclosed, hv, eq_comm (a := e)]
      · simp [hq]

/-- A directory is entered by its own name, or by a link when it can be opened and is not being
visited. -/
lemma lookInto_eq_directory {visits : List Visit} {path : Path} {place q : Place}
    (h : fs.lookInto visits path place = .ok (.directory q)) :
    (q = place ∧ fs.entry? place = some .directory) ∨
      ((∃ target, fs.entry? place = some (.link target)) ∧ fs.resolve path = .ok q ∧
        fs.entry? q = some .directory ∧ q ∉ fs.unreadable ∧ ∀ v ∈ visits, v.place ≠ q) := by
  unfold lookInto at h
  rcases hentry : fs.entry? place with _ | _ | _ | target <;> simp only [hentry] at h
  · cases h
  · cases h
  · cases h
    exact .inl ⟨rfl, rfl⟩
  · cases hreal : fs.resolve path with
    | error cause => simp [hreal] at h
    | ok real =>
      rcases hdir : fs.entry? real with _ | _ | _ | _ <;> simp only [hreal, hdir] at h
      · cases h
      · cases h
      · by_cases hclosed : real ∈ fs.unreadable
        · simp [hclosed] at h
        · cases hfind : visits.find? (·.place = real) with
          | some v => simp [hclosed, hfind] at h
          | none =>
            obtain rfl : real = q := by simpa [hclosed, hfind] using h
            exact .inr ⟨⟨target, rfl⟩, rfl, hdir, hclosed, by simpa using hfind⟩
      · cases h

lemma entry?_of_lookInto {visits : List Visit} {path : Path} {place q : Place}
    (h : fs.lookInto visits path place = .ok (.directory q)) :
    fs.entry? q = some .directory := by
  rcases lookInto_eq_directory h with ⟨rfl, hdir⟩ | ⟨-, -, hdir, -⟩ <;> exact hdir

/-- Entering a directory takes room. -/
lemma room_lt_room {outer : List Visit} {visit : Visit} {n : Bytes} {path : Path} {q : Place}
    (h : fs.lookInto (visit :: outer) path (visit.place ++ [n]) = .ok (.directory q)) :
    fs.room (visit :: outer) ⟨path, q⟩ < fs.room outer visit := by
  unfold room
  have hle : (fs.unvisited (⟨path, q⟩ :: visit :: outer)).length ≤
      (fs.unvisited (visit :: outer)).length := List.length_filter_le _ _
  rcases lookInto_eq_directory h with ⟨rfl, hdir⟩ | ⟨-, -, hdir, -, hnew⟩
  · -- The place is one name longer.
    have hlen := length_le_deepest hdir
    have hmul := Nat.mul_le_mul_right (fs.deepest + 1) hle
    simp only [List.length_append, List.length_singleton] at hlen ⊢
    omega
  · -- The place is not left to be visited again.
    have hmem : q ∈ fs.unvisited (visit :: outer) :=
      mem_unvisited_iff.2 ⟨mem_places hdir, hnew⟩
    have hlt : (fs.unvisited (⟨path, q⟩ :: visit :: outer)).length <
        (fs.unvisited (visit :: outer)).length :=
      List.length_filter_lt_length_iff_exists.2 ⟨q, hmem, by simp⟩
    have hmul := Nat.mul_le_mul_right (fs.deepest + 1) (Nat.succ_le_of_lt hlt)
    rw [Nat.succ_mul] at hmul
    omega

/-- A walk starts with room enough. -/
lemma room_lt_nestingLimit (visit : Visit) : fs.room [] visit < fs.nestingLimit := by
  have hle : (fs.unvisited [visit]).length ≤ fs.entries.length + 1 := by
    apply Nat.le_trans (List.length_filter_le _ _)
    simp [unvisited]
  have hmul := Nat.mul_le_mul_right (fs.deepest + 1) hle
  change _ < (fs.entries.length + 2) * (fs.deepest + 2)
  unfold room
  have hexpand : (fs.entries.length + 2) * (fs.deepest + 2) =
      (fs.entries.length + 1) * (fs.deepest + 1) + (fs.deepest + 1) +
        (fs.entries.length + 2) := by ring
  omega

/-- With room enough, the events are what the walk meets. -/
theorem mem_events_iff {fuel : Nat} {outer : List Visit} {visit : Visit} {trail : List Bytes}
    (hroom : fs.room outer visit < fuel) {ev : Event} :
    ev ∈ fs.events allowed fuel outer visit trail ↔
      ∃ names, ev.1 = trail ++ names ∧ Meets fs allowed outer visit names ev.2 := by
  induction fuel generalizing outer visit trail with
  | zero => omega
  | succ fuel ih =>
    rw [mem_events_succ_iff]
    constructor
    · rintro (⟨hclosed, rfl⟩ | ⟨hopen, n, hn, h⟩)
      · exact ⟨[], (List.append_nil trail).symm, .closed hclosed⟩
      obtain ⟨e, he, rfl⟩ | ⟨hallowed, hfile, rfl⟩ | ⟨hallowed, place, hdir, h⟩ :=
        mem_eventsAt_iff.1 h
      · exact ⟨[n], rfl, .error hopen hn he⟩
      · exact ⟨[n], rfl, .file hopen hn hallowed hfile⟩
      · have hlt := room_lt_room hdir
        obtain ⟨names, hev, hmeets⟩ := (ih (by omega)).1 h
        exact ⟨n :: names, by simp [hev], .inside hopen hn hallowed hdir hmeets⟩
    · obtain ⟨evNames, r⟩ := ev
      rintro ⟨names, rfl, hmeets⟩
      cases hmeets with
      | closed hclosed => exact .inl ⟨hclosed, by rw [List.append_nil]⟩
      | error hopen hn he => exact .inr ⟨hopen, _, hn, mem_eventsAt_iff.2 (.inl ⟨_, he, rfl⟩)⟩
      | file hopen hn hallowed hfile =>
        exact .inr ⟨hopen, _, hn, mem_eventsAt_iff.2 (.inr (.inl ⟨hallowed, hfile, rfl⟩))⟩
      | inside hopen hn hallowed hdir hmeets =>
        have hlt := room_lt_room hdir
        refine .inr ⟨hopen, _, hn, mem_eventsAt_iff.2 (.inr (.inr ⟨hallowed, _, hdir, ?_⟩))⟩
        exact (ih (by omega)).2 ⟨_, by simp, hmeets⟩

/-- A walk gives the names of the files that it meets, or the first error. -/
theorem walk_eq_mapM (allowed : Bytes → Bool) {root : Path} {start : Place}
    (hstart : fs.target false root = .ok (.found start)) :
    ∃ evs : List Event, fs.walk allowed root = evs.mapM Event.names? ∧
      (evs.Pairwise fun a b => a.1 < b.1) ∧
      ∀ names r, (names, r) ∈ evs ↔ MeetsFrom fs allowed root names r := by
  rw [walk, hstart]
  cases hfound : fs.lookInto [] root start with
  | error e =>
    refine ⟨[([], .error e)], by simp only [hfound]; rfl, List.pairwise_singleton _ _, ?_⟩
    intro names r
    rw [List.mem_singleton]
    constructor
    · rintro ⟨rfl, rfl⟩
      exact .error hstart hfound
    · intro hmeets
      cases hmeets <;> grind
  | ok found =>
    cases found with
    | file =>
      refine ⟨[], by simp only [hfound]; rfl, .nil, fun names r => ?_⟩
      refine iff_of_false List.not_mem_nil fun hmeets => ?_
      cases hmeets <;> grind
    | directory place =>
      refine ⟨fs.events allowed fs.nestingLimit [] ⟨root, place⟩ [], ?_,
        pairwise_events _ _ _ _, ?_⟩
      · simp only [hfound]
        exact walkWithin_eq_mapM _ _ _ _
      · intro names r
        rw [mem_events_iff (room_lt_nestingLimit _)]
        simp only [List.nil_append, exists_eq_left']
        constructor
        · exact .inside hstart hfound
        · intro hmeets
          cases hmeets <;> grind

end StyleGuide.FileSystem
