import StyleGuide.Proofs.Json.Position
import StyleGuide.Proofs.Reference
import StyleGuide.Proofs.Sequence
import StyleGuide.Resolution

/-!
# Resolving any value

What resolving does is known from the handles alone that stand inside no other handle: each of them
gives way to what is loaded for it, and the rest of the value stays. Neither the body of a handle
nor what is loaded is looked into. Where one of these handles cannot be loaded, resolving fails as
the first of them does, in the order in which the value is written, which is the lexicographic order
of their positions.

## Main definitions

* `Json.IsHandle`: objects that have `$resource` as their only field.
* `Json.IsOutermost`: a handle at a position, with no handle around it.
* `Json.IsOutside`: what stands at a position that no handle is at or around.
* `Registry.Loads`, `Registry.FailsAt`: what is loaded for one handle, or why nothing is.

## Main results

* `Registry.resolve_outermost`: what resolving gives, and how it fails.
-/

namespace StyleGuide

open Reference (handleKey ofHandle? ofBody)

/-! ## Outermost handles -/

namespace Json

/-- The value is an object with `$resource` as its only field. -/
def IsHandle (v : Json) : Prop := ∃ body, v = .object [(handleKey, body)]

/-- A handle stands at the position, and none around it. -/
structure IsOutermost (v : Json) (p : List Nat) (h : Json) : Prop where
  here : v.at? p = some h
  isHandle : h.IsHandle
  around : ∀ q u, q <+: p → q ≠ p → v.at? q = some u → ¬ u.IsHandle

/-- What stands at the position is no handle and is in none. -/
structure IsOutside (v : Json) (p : List Nat) (u : Json) : Prop where
  here : v.at? p = some u
  around : ∀ q u', q <+: p → v.at? q = some u' → ¬ u'.IsHandle

variable {v u h : Json} {i : Nat} {p : List Nat}

lemma isOutermost_nil_iff : v.IsOutermost [] h ↔ h = v ∧ v.IsHandle := by
  constructor
  · rintro ⟨hhere, hhandle, -⟩
    obtain rfl : v = h := Option.some.inj hhere
    exact ⟨rfl, hhandle⟩
  · rintro ⟨rfl, hhandle⟩
    exact ⟨rfl, hhandle, fun q _ hprefix hne => absurd (List.prefix_nil.1 hprefix) hne⟩

lemma isOutermost_cons_iff :
    v.IsOutermost (i :: p) h ↔
      ¬ v.IsHandle ∧ ∃ u, v.children[i]? = some u ∧ u.IsOutermost p h := by
  constructor
  · rintro ⟨hhere, hhandle, haround⟩
    obtain ⟨u, hu, hhere⟩ := Option.bind_eq_some_iff.1 hhere
    refine ⟨haround [] v List.nil_prefix (by simp) rfl, u, hu, hhere, hhandle, ?_⟩
    intro q u' hprefix hne hq
    refine haround (i :: q) u' (List.cons_prefix_cons.2 ⟨rfl, hprefix⟩) (by simpa using hne) ?_
    rw [at?_cons, hu]
    exact hq
  · rintro ⟨hv, u, hu, hhere, hhandle, haround⟩
    refine ⟨by rw [at?_cons, hu]; exact hhere, hhandle, fun q u' hprefix hne hq => ?_⟩
    cases q with
    | nil =>
      obtain rfl : v = u' := Option.some.inj hq
      exact hv
    | cons j q =>
      obtain ⟨rfl, hinner⟩ := List.cons_prefix_cons.1 hprefix
      rw [at?_cons, hu] at hq
      exact haround q u' hinner (by simpa using hne) hq

/-- Inside a handle no other one is outermost. -/
lemma IsHandle.isOutermost_iff (hv : v.IsHandle) : v.IsOutermost p h ↔ p = [] ∧ h = v := by
  cases p with
  | nil => simp [isOutermost_nil_iff, hv]
  | cons i p => simp [isOutermost_cons_iff, hv]

lemma isOutside_nil_iff : v.IsOutside [] u ↔ u = v ∧ ¬ v.IsHandle := by
  constructor
  · rintro ⟨hhere, haround⟩
    obtain rfl : v = u := Option.some.inj hhere
    exact ⟨rfl, haround [] v (List.prefix_refl []) rfl⟩
  · rintro ⟨rfl, hno⟩
    refine ⟨rfl, fun q u' hprefix hq => ?_⟩
    rw [List.prefix_nil.1 hprefix] at hq
    obtain rfl : u = u' := Option.some.inj hq
    exact hno

lemma isOutside_cons_iff :
    v.IsOutside (i :: p) u ↔
      ¬ v.IsHandle ∧ ∃ w, v.children[i]? = some w ∧ w.IsOutside p u := by
  constructor
  · rintro ⟨hhere, haround⟩
    obtain ⟨w, hw, hhere⟩ := Option.bind_eq_some_iff.1 hhere
    refine ⟨haround [] v List.nil_prefix rfl, w, hw, hhere, fun q u' hprefix hq => ?_⟩
    refine haround (i :: q) u' (List.cons_prefix_cons.2 ⟨rfl, hprefix⟩) ?_
    rw [at?_cons, hw]
    exact hq
  · rintro ⟨hv, w, hw, hhere, haround⟩
    refine ⟨by rw [at?_cons, hw]; exact hhere, fun q u' hprefix hq => ?_⟩
    cases q with
    | nil =>
      obtain rfl : v = u' := Option.some.inj hq
      exact hv
    | cons j q =>
      obtain ⟨rfl, hinner⟩ := List.cons_prefix_cons.1 hprefix
      rw [at?_cons, hw] at hq
      exact haround q u' hinner hq

lemma IsHandle.not_isOutside (hv : v.IsHandle) : ¬ v.IsOutside p u := by
  cases p with
  | nil => simp [isOutside_nil_iff, hv]
  | cons i p => simp [isOutside_cons_iff, hv]

end Json

namespace Registry

variable (g : Registry) (fs : FileSystem)

/-! ## One handle -/

/-- The handle is that of a reference, for the kind of which there is a loader, which gives `x`. -/
def Loads (h x : Json) : Prop :=
  ∃ r loader, ofHandle? h = some (.ok r) ∧ g.loader? r.kind = some loader ∧ loader fs r = .ok x

/-- Why nothing is loaded for a handle. -/
inductive FailsAt (h : Json) : ResolveError → Prop
  /-- It is not that of a reference. -/
  | handle {cause : HandleError} (hread : ofHandle? h = some (.error cause)) :
      FailsAt h (.handle cause)
  /-- There is no loader for its kind. -/
  | noLoader {r : Reference} (hread : ofHandle? h = some (.ok r))
      (hno : g.loader? r.kind = none) : FailsAt h (.noLoader r.kind)
  /-- The loader fails. -/
  | load {r : Reference} {loader : Loader} {cause : LoadError}
      (hread : ofHandle? h = some (.ok r)) (hloader : g.loader? r.kind = some loader)
      (hfails : loader fs r = .error cause) : FailsAt h (.load r.request cause)

variable {g fs} {v w h x : Json} {e : ResolveError}

lemma load_eq_ok_iff {r : Reference} :
    g.load fs r = .ok x ↔ ∃ loader, g.loader? r.kind = some loader ∧ loader fs r = .ok x := by
  unfold load
  cases g.loader? r.kind with
  | none => simp
  | some loader => simp [mapError_eq_ok_iff]

lemma load_eq_error_iff {r : Reference} :
    g.load fs r = .error e ↔ (g.loader? r.kind = none ∧ e = .noLoader r.kind) ∨
      ∃ loader cause, g.loader? r.kind = some loader ∧ loader fs r = .error cause ∧
        e = .load r.request cause := by
  unfold load
  cases g.loader? r.kind with
  | none => simp [eq_comm]
  | some loader =>
    simp only [reduceCtorEq, false_and, false_or, mapError_eq_error_iff]
    constructor
    · rintro ⟨cause, hcause, rfl⟩
      exact ⟨loader, cause, rfl, hcause, rfl⟩
    · rintro ⟨_, cause, hloader, hcause, rfl⟩
      cases hloader
      exact ⟨cause, hcause, rfl⟩

/-- A handle is refused, or it is resolved as its reference is loaded. -/
lemma resolve_of_isHandle (g : Registry) (fs : FileSystem) (hv : v.IsHandle) :
    (∃ cause, ofHandle? v = some (.error cause) ∧ g.resolve fs v = .error (.handle cause)) ∨
      ∃ r, ofHandle? v = some (.ok r) ∧ g.resolve fs v = g.load fs r := by
  obtain ⟨body, rfl⟩ := hv
  have hread : ofHandle? (.object [(handleKey, body)]) = some (ofBody body) := by
    rw [ofHandle?, if_pos rfl]
  cases hbody : ofBody body with
  | error cause =>
    rw [hbody] at hread
    exact .inl ⟨cause, hread, by simp only [resolve, hread]⟩
  | ok r =>
    rw [hbody] at hread
    exact .inr ⟨r, hread, by simp only [resolve, hread]⟩

lemma resolve_eq_ok_iff_loads (hv : v.IsHandle) : g.resolve fs v = .ok x ↔ g.Loads fs v x := by
  rcases resolve_of_isHandle g fs hv with ⟨cause, hread, hresolve⟩ | ⟨r, hread, hresolve⟩
  · simp [hresolve, Loads, hread]
  · simp [hresolve, Loads, hread, load_eq_ok_iff]

lemma resolve_eq_error_iff_failsAt (hv : v.IsHandle) :
    g.resolve fs v = .error e ↔ g.FailsAt fs v e := by
  rcases resolve_of_isHandle g fs hv with ⟨cause, hread, hresolve⟩ | ⟨r, hread, hresolve⟩
  · rw [hresolve]
    constructor
    · intro heq
      cases heq
      exact .handle hread
    · rintro (⟨hcause⟩ | ⟨hok, -⟩ | ⟨hok, -, -⟩)
      · cases hread.symm.trans hcause
        rfl
      · cases hread.symm.trans hok
      · cases hread.symm.trans hok
  · rw [hresolve, load_eq_error_iff]
    constructor
    · rintro (⟨hno, rfl⟩ | ⟨loader, cause, hloader, hfails, rfl⟩)
      · exact .noLoader hread hno
      · exact .load hread hloader hfails
    · rintro (⟨hcause⟩ | ⟨hok, hno⟩ | ⟨hok, hloader, hfails⟩)
      · cases hread.symm.trans hcause
      · cases hread.symm.trans hok
        exact .inl ⟨hno, rfl⟩
      · cases hread.symm.trans hok
        exact .inr ⟨_, _, hloader, hfails, rfl⟩

/-! ## Values that are no handles -/

lemma resolveItems_eq_mapM (items : List Json) :
    g.resolveItems fs items = items.mapM (g.resolve fs) := by
  induction items with
  | nil => rfl
  | cons v items ih => rw [resolveItems, ih, List.mapM_cons]

lemma resolveFields_eq_map (fields : List (String × Json)) :
    g.resolveFields fs fields =
      ((fields.map Prod.snd).mapM (g.resolve fs)).map (fields.map Prod.fst).zip := by
  induction fields with
  | nil => rfl
  | cons f fields ih =>
    obtain ⟨k, v⟩ := f
    rw [resolveFields, ih, List.map_cons, List.map_cons, List.mapM_cons]
    cases g.resolve fs v with
    | error e => rfl
    | ok value => cases (fields.map Prod.snd).mapM (g.resolve fs) <;> rfl

/-- A value that is no handle is resolved by resolving what stands right inside it, in order. -/
theorem resolve_of_not_isHandle (hv : ¬ v.IsHandle) :
    g.resolve fs v = (v.children.mapM (g.resolve fs)).map v.withChildren := by
  cases v with
  | array items => rw [resolve, resolveItems_eq_mapM]; rfl
  | object fields =>
    have hnone : ofHandle? (.object fields) = none :=
      Reference.ofHandle?_eq_none_iff.2 fun ⟨body, heq⟩ => hv ⟨body, by rw [heq]⟩
    simp only [resolve, hnone, resolveFields_eq_map, Json.children]
    cases (fields.map Prod.snd).mapM (g.resolve fs) <;> rfl
  | _ => rfl

/-! ## What is given -/

/-- The value `w` is `v` with the outermost handles replaced by what is loaded for them: it has this
at their positions, and outside of them the frames are the same. -/
structure Replaces (g : Registry) (fs : FileSystem) (v w : Json) : Prop where
  loaded : ∀ p h, v.IsOutermost p h → ∃ x, g.Loads fs h x ∧ w.at? p = some x
  kept : ∀ p u, v.IsOutside p u → ∃ u', w.at? p = some u' ∧ u'.frame = u.frame

lemma replaces_of_isHandle (hv : v.IsHandle) : g.Replaces fs v w ↔ g.Loads fs v w := by
  constructor
  · rintro ⟨hloaded, -⟩
    obtain ⟨x, hx, hw⟩ := hloaded [] v (hv.isOutermost_iff.2 ⟨rfl, rfl⟩)
    cases hw
    exact hx
  · intro hw
    refine ⟨fun p h hp => ?_, fun p u hp => absurd hp hv.not_isOutside⟩
    obtain ⟨rfl, rfl⟩ := hv.isOutermost_iff.1 hp
    exact ⟨w, hw, rfl⟩

/-- Replacing in a value that is no handle is replacing in everything right inside it. -/
lemma replaces_of_not_isHandle (hv : ¬ v.IsHandle) :
    g.Replaces fs v w ↔
      w.frame = v.frame ∧ List.Forall₂ (g.Replaces fs) v.children w.children := by
  rw [List.forall₂_iff_get]
  constructor
  · rintro ⟨hloaded, hkept⟩
    have hframe : w.frame = v.frame := by
      obtain ⟨u, hu, hframe⟩ := hkept [] v (Json.isOutside_nil_iff.2 ⟨rfl, hv⟩)
      cases hu
      exact hframe
    have hlen := Json.length_children_of_frame hframe
    refine ⟨hframe, hlen.symm, fun i hi hi' => ⟨fun p h hp => ?_, fun p u hp => ?_⟩⟩
    all_goals
      have hchild : v.children[i]? = some (v.children.get ⟨i, hi⟩) := List.getElem?_eq_getElem hi
      have hchild' : w.children[i]? = some (w.children.get ⟨i, hi'⟩) := List.getElem?_eq_getElem hi'
    · obtain ⟨x, hx, hat⟩ :=
        hloaded (i :: p) h (Json.isOutermost_cons_iff.2 ⟨hv, _, hchild, hp⟩)
      rw [Json.at?_cons, hchild'] at hat
      exact ⟨x, hx, hat⟩
    · obtain ⟨u', hat, hframe⟩ :=
        hkept (i :: p) u (Json.isOutside_cons_iff.2 ⟨hv, _, hchild, hp⟩)
      rw [Json.at?_cons, hchild'] at hat
      exact ⟨u', hat, hframe⟩
  · rintro ⟨hframe, hlen, hall⟩
    have hchild : ∀ {i : Nat} {u : Json}, v.children[i]? = some u →
        ∃ u', w.children[i]? = some u' ∧ g.Replaces fs u u' := by
      intro i u hu
      obtain ⟨hi, rfl⟩ := List.getElem?_eq_some_iff.1 hu
      have hi' : i < w.children.length := hlen ▸ hi
      exact ⟨_, List.getElem?_eq_getElem hi', hall i hi hi'⟩
    constructor
    · intro p h hp
      cases p with
      | nil => exact absurd (Json.isOutermost_nil_iff.1 hp).2 hv
      | cons i p =>
        obtain ⟨-, u, hu, hp⟩ := Json.isOutermost_cons_iff.1 hp
        obtain ⟨u', hu', hreplaces⟩ := hchild hu
        obtain ⟨x, hx, hat⟩ := hreplaces.loaded p h hp
        exact ⟨x, hx, by rw [Json.at?_cons, hu']; exact hat⟩
    · intro p u hp
      cases p with
      | nil =>
        obtain ⟨rfl, -⟩ := Json.isOutside_nil_iff.1 hp
        exact ⟨w, rfl, hframe⟩
      | cons i p =>
        obtain ⟨-, c, hc, hp⟩ := Json.isOutside_cons_iff.1 hp
        obtain ⟨c', hc', hreplaces⟩ := hchild hc
        obtain ⟨u', hat, hu'⟩ := hreplaces.kept p u hp
        exact ⟨u', by rw [Json.at?_cons, hc']; exact hat, hu'⟩

/-- Resolving gives the value in which the outermost handles are replaced. -/
lemma resolve_eq_ok_iff : g.resolve fs v = .ok w ↔ g.Replaces fs v w := by
  induction v using Json.childrenInduction generalizing w with
  | h v ih =>
    by_cases hv : v.IsHandle
    · rw [resolve_eq_ok_iff_loads hv, replaces_of_isHandle hv]
    rw [resolve_of_not_isHandle hv, map_eq_ok_iff, replaces_of_not_isHandle hv]
    have hchildren : ∀ values, v.children.mapM (g.resolve fs) = .ok values ↔
        List.Forall₂ (g.Replaces fs) v.children values := fun values => by
      rw [mapM_eq_ok_iff, List.forall₂_iff_get, List.forall₂_iff_get]
      exact and_congr_right fun _ => forall₃_congr fun i hi _ => ih _ (List.getElem_mem hi)
    constructor
    · rintro ⟨values, hvalues, rfl⟩
      have hforall := (hchildren values).1 hvalues
      obtain ⟨hframe, hw⟩ := (Json.eq_withChildren_iff hforall.length_eq.symm).1 rfl
      exact ⟨hframe, hw.symm ▸ hforall⟩
    · rintro ⟨hframe, hforall⟩
      refine ⟨w.children, (hchildren _).2 hforall, ?_⟩
      exact ((Json.eq_withChildren_iff hforall.length_eq.symm).2 ⟨hframe, rfl⟩).symm

/-! ## How it fails -/

/-- Resolving gives a value where each outermost handle can be loaded. -/
lemma exists_resolve_iff :
    (∃ w, g.resolve fs v = .ok w) ↔ ∀ p h, v.IsOutermost p h → ∃ x, g.Loads fs h x := by
  induction v using Json.childrenInduction with
  | h v ih =>
    by_cases hv : v.IsHandle
    · simp [resolve_eq_ok_iff_loads hv, hv.isOutermost_iff]
    have hmap : (∃ w, g.resolve fs v = .ok w) ↔
        ∃ values, v.children.mapM (g.resolve fs) = .ok values := by
      simp [resolve_of_not_isHandle hv, map_eq_ok_iff]
    rw [hmap, exists_mapM_eq_ok_iff, forall₂_congr ih]
    constructor
    · intro hall p h hp
      cases p with
      | nil => exact absurd (Json.isOutermost_nil_iff.1 hp).2 hv
      | cons i p =>
        obtain ⟨-, u, hu, hp⟩ := Json.isOutermost_cons_iff.1 hp
        exact hall u (List.mem_of_getElem? hu) p h hp
    · intro hall u hu p h hp
      obtain ⟨i, hi⟩ := List.getElem?_of_mem hu
      exact hall (i :: p) h (Json.isOutermost_cons_iff.2 ⟨hv, u, hi, hp⟩)

/-- Some outermost handle fails for the reason `e`, and those before it can be loaded. -/
def FailsFirstAt (g : Registry) (fs : FileSystem) (v : Json) (e : ResolveError) : Prop :=
  ∃ p h, v.IsOutermost p h ∧ g.FailsAt fs h e ∧
    ∀ q k, q < p → v.IsOutermost q k → ∃ x, g.Loads fs k x

lemma failsFirstAt_of_isHandle (hv : v.IsHandle) :
    g.FailsFirstAt fs v e ↔ g.FailsAt fs v e := by
  simp [FailsFirstAt, hv.isOutermost_iff]

/-- The first handle inside a value that fails is the first inside the first value right inside it
that has one. -/
lemma failsFirstAt_of_not_isHandle (hv : ¬ v.IsHandle) :
    g.FailsFirstAt fs v e ↔
      ∃ (i : Nat) (u : Json), v.children[i]? = some u ∧ g.FailsFirstAt fs u e ∧
        ∀ j u', j < i → v.children[j]? = some u' →
          ∀ p h, u'.IsOutermost p h → ∃ x, g.Loads fs h x := by
  constructor
  · rintro ⟨p, h, hp, hfails, hbefore⟩
    cases p with
    | nil => exact absurd (Json.isOutermost_nil_iff.1 hp).2 hv
    | cons i p =>
      obtain ⟨-, u, hu, hp⟩ := Json.isOutermost_cons_iff.1 hp
      refine ⟨i, u, hu, ⟨p, h, hp, hfails, fun q k hq hk => ?_⟩, fun j u' hj hu' q k hk => ?_⟩
      · exact hbefore (i :: q) k (List.cons_lt_cons_iff.2 (.inr ⟨rfl, hq⟩))
          (Json.isOutermost_cons_iff.2 ⟨hv, u, hu, hk⟩)
      · exact hbefore (j :: q) k (List.cons_lt_cons_iff.2 (.inl hj))
          (Json.isOutermost_cons_iff.2 ⟨hv, u', hu', hk⟩)
  · rintro ⟨i, u, hu, ⟨p, h, hp, hfails, hbefore⟩, hearlier⟩
    refine ⟨i :: p, h, Json.isOutermost_cons_iff.2 ⟨hv, u, hu, hp⟩, hfails, fun q k hq hk => ?_⟩
    cases q with
    | nil => exact absurd (Json.isOutermost_nil_iff.1 hk).2 hv
    | cons j q =>
      obtain ⟨-, u', hu', hk⟩ := Json.isOutermost_cons_iff.1 hk
      rcases List.cons_lt_cons_iff.1 hq with hj | ⟨rfl, hinner⟩
      · exact hearlier j u' hj hu' q k hk
      · cases hu.symm.trans hu'
        exact hbefore q k hinner hk

/-- Resolving fails as the first outermost handle does that cannot be loaded. -/
lemma resolve_eq_error_iff : g.resolve fs v = .error e ↔ g.FailsFirstAt fs v e := by
  induction v using Json.childrenInduction with
  | h v ih =>
    by_cases hv : v.IsHandle
    · rw [resolve_eq_error_iff_failsAt hv, failsFirstAt_of_isHandle hv]
    rw [resolve_of_not_isHandle hv, map_eq_error_iff, mapM_eq_error_iff, failsFirst_iff_getElem?,
      failsFirstAt_of_not_isHandle hv]
    refine exists₂_congr fun i u => and_congr_right fun hu => ?_
    rw [ih u (List.mem_of_getElem? hu)]
    refine and_congr_right fun _ => forall₂_congr fun j u' => forall₂_congr fun _ hu' => ?_
    exact exists_resolve_iff

/-! ## The whole value -/

/-- Resolving any value gives a value just when every outermost handle in it is that of a reference
for which there is a loader that gives a value. What is given is then the value with these in the
place of the handles and everything else as it was, so that a value in which nothing is a handle is
given back. Otherwise resolving fails for the reason of the first outermost handle that has one. -/
theorem resolve_outermost (g : Registry) (fs : FileSystem) (v : Json) :
    ((∃ w, g.resolve fs v = .ok w) ↔ ∀ p h, v.IsOutermost p h → ∃ x, g.Loads fs h x) ∧
    (∀ w, g.resolve fs v = .ok w ↔
      (∀ p h, v.IsOutermost p h → ∃ x, g.Loads fs h x ∧ w.at? p = some x) ∧
      ∀ p u, v.IsOutside p u → ∃ u', w.at? p = some u' ∧ u'.frame = u.frame) ∧
    ((∀ p u, v.at? p = some u → ¬ u.IsHandle) → g.resolve fs v = .ok v) ∧
    (∀ e, g.resolve fs v = .error e ↔ ∃ p h, v.IsOutermost p h ∧ g.FailsAt fs h e ∧
      ∀ q k, q < p → v.IsOutermost q k → ∃ x, g.Loads fs k x) := by
  refine ⟨exists_resolve_iff, fun w => ?_, fun hno => ?_, fun e => resolve_eq_error_iff⟩
  · exact resolve_eq_ok_iff.trans ⟨fun h => ⟨h.loaded, h.kept⟩, fun h => ⟨h.1, h.2⟩⟩
  · exact resolve_eq_ok_iff.2 ⟨fun p h hp => absurd hp.isHandle (hno p h hp.here),
      fun p u hp => ⟨u, hp.here, rfl⟩⟩

end Registry

end StyleGuide
