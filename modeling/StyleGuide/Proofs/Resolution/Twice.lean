import Mathlib.Tactic.Common
import StyleGuide.Proofs.Compilation.Contents
import StyleGuide.Proofs.Props.Handle
import StyleGuide.Proofs.Props.Interface

/-!
# Resolving a style guide twice

What has been resolved is not searched for handles again, but it can be handed on and resolved once
more. The documents and sources that have been put in bring no handles, whatever they contain. The
documentation of properties may bring objects that look like handles, and then the second resolution
fails.

## Main definitions

* `Tree.PropsHandleFree`: no source of a tree has properties that are named like a handle.

## Main results

* `Tree.resolve_resolved`: resolving twice is the same as resolving once, or fails the second time.
-/

namespace StyleGuide

open Reference (handleKey)
open Json (everywhere_object_iff)

/-- The properties in a source that is read, if any, are not named like a handle. -/
def SourceHandleFree (fs : FileSystem) (path : Path) : Prop :=
  ∀ text doc, PropsExtractor.interface.handles path = true → fs.readText path = .ok text →
    Interface.extract text = .ok doc → doc.HandleFree

/-- No source from which properties are put in has properties that are named like a handle. -/
def Tree.PropsHandleFree (fs : FileSystem) (t : Tree) : Prop :=
  ∀ r ∈ t.references, r.kind = .props → SourceHandleFree fs (.ofString r.path.text)

/-! ## What loaders give -/

namespace Loader

variable {fs : FileSystem} {r : Reference} {v : Json} {P : List (String × Json) → Prop}

lemma everywhere_examples (hP : HoldsOfPlain P) (h : examples fs r = .ok v) : v.Everywhere P := by
  obtain ⟨text, -, hv⟩ := bind_eq_ok_iff.1 h
  cases hv
  refine .array (List.forall_mem_map.2 fun chunk _ => ?_)
  cases chunk <;> exact .object (hP _ (by simp) (by simp [handleKey])) (by simp)

lemma everywhere_module (hP : HoldsOfPlain P) (h : module fs r = .ok v) : v.Everywhere P := by
  obtain ⟨text, -, hv⟩ := bind_eq_ok_iff.1 h
  cases hv
  exact .object (hP _ (by simp) (by simp [handleKey])) (by simp)

lemma props_eq_ok {text : String} {doc : PropsDoc}
    (hhandles : PropsExtractor.interface.handles r.path = true)
    (htext : fs.readText r.path = .ok text) (hdoc : Interface.extract text = .ok doc) :
    props .interface fs r = .ok doc.toJson.merged :=
  (if_pos hhandles).trans (bind_eq_ok_iff.2
    ⟨text, mapError_eq_ok_iff.2 htext, bind_eq_ok_iff.2 ⟨doc, mapError_eq_ok_iff.2 hdoc, rfl⟩⟩)

/-- The properties that are put in look like a handle where the source names them so. -/
lemma handleFree_props_iff (h : props .interface fs r = .ok v) :
    v.Inert ∧ (v.HandleFree ↔ SourceHandleFree fs r.path) := by
  unfold props at h
  split_ifs at h with hhandles
  · obtain ⟨text, htext, h⟩ := bind_eq_ok_iff.1 h
    obtain ⟨doc, hdoc, hv⟩ := bind_eq_ok_iff.1 h
    cases hv
    have hread := mapError_eq_ok_iff.1 htext
    have hextract := mapError_eq_ok_iff.1 hdoc
    -- Both the text and the documentation are the only ones that the definition speaks of.
    refine ⟨doc.inert_merged_toJson, PropsDoc.handleFree_merged_toJson_iff.trans ⟨?_, ?_⟩⟩
    · intro hfree text' doc' _ hread' hextract'
      cases hread.symm.trans hread'
      cases hextract.symm.trans hextract'
      exact hfree
    · exact fun hsource => hsource text doc hhandles hread hextract
  · cases h
    have hplain : ∀ P : List (String × Json) → Prop, HoldsOfPlain P →
        (PropsDoc.toJson ⟨"", []⟩).Everywhere P := fun P hP =>
      .object (hP _ (by simp) (by simp [handleKey]))
        (by simpa [fieldsJson, everywhere_object_iff] using hP [] (by simp) (by simp))
    exact ⟨hplain _ holdsOfPlain_inert, iff_of_true (hplain _ holdsOfPlain_handleFree)
      fun _ _ h => absurd h hhandles⟩

end Loader

/-- A value that is put in is no reference, and looks like a handle only where it documents
properties that are named like one. -/
lemma Registry.handleFree_load_iff {fs : FileSystem} {r : Reference} {v : Json}
    (h : (standard .interface).load fs r = .ok v) :
    v.Inert ∧ (v.HandleFree ↔ (r.kind = .props → SourceHandleFree fs r.path)) := by
  obtain ⟨kind, path, params⟩ := r
  cases kind with
  | examples =>
    have hload := mapError_eq_ok_iff.1 h
    exact ⟨Loader.everywhere_examples holdsOfPlain_inert hload,
      iff_of_true (Loader.everywhere_examples holdsOfPlain_handleFree hload) (by simp)⟩
  | module =>
    have hload := mapError_eq_ok_iff.1 h
    exact ⟨Loader.everywhere_module holdsOfPlain_inert hload,
      iff_of_true (Loader.everywhere_module holdsOfPlain_handleFree hload) (by simp)⟩
  | props => simpa using Loader.handleFree_props_iff (mapError_eq_ok_iff.1 h)

/-! ## The whole tree -/

/-- Each handle of a tree is resolved on its own. -/
lemma Tree.exists_resolve_eq (g : Registry) (fs : FileSystem) (t : Tree) :
    ∃ value, (∀ r w, g.resolve fs r.handle = .ok w → value r = w) ∧
      g.resolve fs t.toJson =
        (t.references.mapM fun r => g.resolve fs r.handle).map fun _ => t.toJsonWith value := by
  -- Where a handle has no value, anything can stand for it, for nothing is given then.
  let load := fun r : Reference => g.resolve fs r.handle
  let value := fun r => (load r).toOption.getD .null
  have hvalue : ∀ r w, load r = .ok w → value r = w := fun r w hw => by
    simp [value, hw, Except.toOption]
  have htree : g.Resolves fs load t.references t.toJson (t.toJsonWith value) :=
    Registry.resolves_toJsonWith fun r _ => Registry.resolves_single rfl (hvalue r)
  exact ⟨value, hvalue, htree⟩

lemma Tree.exists_resolve_of_handles {g : Registry} {fs : FileSystem} {t : Tree}
    (h : ∀ r ∈ t.references, ∃ w, g.resolve fs r.handle = .ok w) :
    ∃ v, g.resolve fs t.toJson = .ok v := by
  obtain ⟨value, -, htree⟩ := exists_resolve_eq g fs t
  obtain ⟨values, hvalues⟩ := exists_mapM_eq_ok_iff.2 h
  exact ⟨t.toJsonWith value, by rw [htree, hvalues]; rfl⟩

/-- The value that is resolved is that of the tree with what its handles resolve to. -/
lemma Tree.exists_of_resolve {g : Registry} {fs : FileSystem} {t : Tree} {v : Json}
    (h : g.resolve fs t.toJson = .ok v) :
    ∃ value, v = t.toJsonWith value ∧
      ∀ r ∈ t.references, g.resolve fs r.handle = .ok (value r) := by
  obtain ⟨value, hvalue, htree⟩ := exists_resolve_eq g fs t
  obtain ⟨values, hvalues, hv⟩ := map_eq_ok_iff.1 (htree.symm.trans h)
  refine ⟨value, hv.symm, fun r hr => ?_⟩
  obtain ⟨w, hw⟩ := exists_mapM_eq_ok_iff.1 ⟨values, hvalues⟩ r hr
  rw [hvalue r w hw]
  exact hw

/-- What is resolved once is inert, and it looks like a handle only where properties do. -/
lemma Tree.inert_of_resolve {fs : FileSystem} {t : Tree} {v : Json}
    (h : (Registry.standard .interface).resolve fs t.toJson = .ok v) :
    v.Inert ∧ (v.HandleFree ↔ t.PropsHandleFree fs) := by
  obtain ⟨value, rfl, hvalue⟩ := exists_of_resolve h
  have hloaded : ∀ r ∈ t.references, (value r).Inert ∧ ((value r).HandleFree ↔
      (r.kind = .props → SourceHandleFree fs (.ofString r.path.text))) := by
    intro r hr
    have hload := (Registry.resolve_handle r.ofHandle?_handle_eq).symm.trans (hvalue r hr)
    exact Registry.handleFree_load_iff hload
  constructor
  · exact (everywhere_toJsonWith_iff holdsOfPlain_inert).2 fun r hr => (hloaded r hr).1
  · exact (everywhere_toJsonWith_iff holdsOfPlain_handleFree).trans
      (forall₂_congr fun r hr => (hloaded r hr).2)

/-! ## One component -/

/-- A component in the root. -/
def cardFile (content : Bytes) : FileSystem where
  entries := [([Utf8.encode "Card.tsx"], .file content)]
  current := []

/-- A configuration with this component alone. -/
def cardConfig : Config :=
  { Config.standard with components := some (.listed [Path.ofString "/Card.tsx"]) }

lemma read_cardFile (content : Bytes) :
    (cardFile content).read (.ofString "/Card.tsx") = .ok content := by
  have hplace : (cardFile []).resolve (.ofString "/Card.tsx") = .ok [Utf8.encode "Card.tsx"] := by
    decide +kernel
  exact FileSystem.read_of_resolve_emptied hplace List.not_mem_nil
    (by simp [cardFile, FileSystem.entry?])

/-- What is in the file does not matter before it is loaded. -/
lemma exists_compile_cardFile (content : Bytes) :
    ∃ t, compile (cardFile content) cardConfig = .ok t ∧ t.references =
      [.bare .module (.ofString "/Card.tsx"), .bare .props (.ofString "/Card.tsx")] := by
  have hrefs : (compile (cardFile []) cardConfig).map (·.references) =
      .ok [.bare .module (.ofString "/Card.tsx"), .bare .props (.ofString "/Card.tsx")] := by
    decide +kernel
  obtain ⟨t, ht, hrefs⟩ := map_eq_ok_iff.1 hrefs
  rw [compile_eq_of_sameShape (FileSystem.sameShape_emptied (cardFile content))]
  exact ⟨t, ht, hrefs⟩

/-- The source of a component whose properties are texts with these names. For `$resource` it is
```
interface CardProps {
  $resource: string;
}
```
-/
def cardSource (names : List String) : String :=
  let members := names.map fun n => (⟨n, false, .primitive "string", []⟩ : Interface.Documented)
  String.ofList (Interface.print ⟨2, 2⟩ "Card".toList (members.map (·.toMember)))

/-- A component with this source. -/
def cardWith (names : List String) : FileSystem := cardFile (Utf8.encode (cardSource names))

variable {names : List String}

lemma exists_extract_cardSource (h : ∀ n ∈ names, Member.IsName n.toList) :
    ∃ doc, Interface.extract (cardSource names) = .ok doc ∧
      doc.props.map (fun p => (p.1, p.2.types)) =
        names.map fun n => (n, [PropType.primitive "string"]) := by
  have hreadable : ∀ d ∈ names.map fun n =>
      (⟨n, false, .primitive "string", []⟩ : Interface.Documented), d.IsReadable :=
    List.forall_mem_map.2 fun n hn =>
      ⟨h n hn, .primitive (by decide) (by decide), List.forall_mem_nil _⟩
  have hcard : ∀ c ∈ "Card".toList, isWord c = true := List.all_eq_true.1 (by decide)
  have hextract := Interface.extract_print_eq ⟨2, 2⟩ hcard hreadable []
  simp only [List.append_nil] at hextract
  refine ⟨_, hextract, ?_⟩
  rw [Interface.map_foldl_setDefault fun _ _ _ => rfl, List.map_map, List.map_map]
  rfl

lemma readText_cardWith (names : List String) :
    (cardWith names).readText (.ofString "/Card.tsx") = .ok (cardSource names) :=
  FileSystem.readText_of_read (read_cardFile _)

/-- Properties with types that hold no others look like a handle where they are all named so. -/
lemma sourceHandleFree_cardWith_iff (h : ∀ n ∈ names, Member.IsName n.toList) :
    SourceHandleFree (cardWith names) (.ofString "/Card.tsx") ↔ ¬ NamesHandle names := by
  obtain ⟨doc, hdoc, hprops⟩ := exists_extract_cardSource h
  have hnames : doc.props.map Prod.fst = names := by
    simpa [Function.comp_def] using congrArg (List.map Prod.fst) hprops
  have htypes : ∀ name p, doc.props.reverse.lookup name = some p → ∀ t ∈ p.types, t.HandleFree := by
    intro name p hp t ht
    have hpair := List.mem_map_of_mem (f := fun p => (p.1, p.2.types)) (mem_of_lookup_reverse hp)
    rw [hprops, List.mem_map] at hpair
    obtain ⟨n, -, hn⟩ := hpair
    have hstring : p.types = [.primitive "string"] := (congrArg Prod.snd hn).symm
    rw [hstring, List.mem_singleton] at ht
    exact ht ▸ .primitive "string"
  have hfree : doc.HandleFree ↔ ¬ NamesHandle names := by
    rw [PropsDoc.HandleFree, hnames, and_iff_left htypes]
  rw [← hfree]
  constructor
  · exact fun hsource => hsource _ doc (by decide +kernel) (readText_cardWith names) hdoc
  · intro hdocfree text doc' _ htext hdoc'
    cases (readText_cardWith names).symm.trans htext
    cases hdoc.symm.trans hdoc'
    exact hdocfree

/-- The component can be compiled and its handles resolved. -/
lemma exists_resolve_cardWith (h : ∀ n ∈ names, Member.IsName n.toList) :
    ∃ t v, compile (cardWith names) cardConfig = .ok t ∧
      (Registry.standard .interface).resolve (cardWith names) t.toJson = .ok v ∧
      (t.PropsHandleFree (cardWith names) ↔ ¬ NamesHandle names) := by
  obtain ⟨t, hok, hrefs⟩ := exists_compile_cardFile (Utf8.encode (cardSource names))
  obtain ⟨doc, hdoc, -⟩ := exists_extract_cardSource h
  have hread := readText_cardWith names
  have hhandles : ∀ r ∈ t.references,
      ∃ w, (Registry.standard .interface).resolve (cardWith names) r.handle = .ok w := by
    rw [hrefs, List.forall_mem_cons, List.forall_mem_singleton]
    constructor
    · rw [Registry.resolve_handle (Reference.ofHandle?_handle (.bare _ _))]
      exact ⟨_, mapError_eq_ok_iff.2 (bind_eq_ok_iff.2 ⟨_, mapError_eq_ok_iff.2 hread, rfl⟩)⟩
    · rw [Registry.resolve_handle (Reference.ofHandle?_handle (.bare _ _))]
      have hprops := Loader.props_eq_ok (r := .bare .props (.ofString "/Card.tsx"))
        (by decide +kernel) hread hdoc
      exact ⟨_, mapError_eq_ok_iff.2 hprops⟩
  obtain ⟨v, hv⟩ := Tree.exists_resolve_of_handles hhandles
  refine ⟨t, v, hok, hv, ?_⟩
  have hpath : Path.ofString (Path.ofString "/Card.tsx").text = .ofString "/Card.tsx" :=
    Path.ofString_text ⟨_, rfl⟩
  rw [Tree.PropsHandleFree, hrefs]
  simp [Reference.bare, hpath, sourceHandleFree_cardWith_iff h]

/-- A style guide that has been resolved holds no handles, and resolving it once more changes
nothing, unless a source has properties, or members of a shape, that are all named like the field of
a handle. Then the second resolution fails at a handle without a kind. -/
theorem Tree.resolve_resolved {fs : FileSystem} {t : Tree} {v : Json}
    (h : (Registry.standard .interface).resolve fs t.toJson = .ok v) :
    (v.HandleFree ↔ t.PropsHandleFree fs) ∧
    (t.PropsHandleFree fs → (Registry.standard .interface).resolve fs v = .ok v) ∧
    (¬ t.PropsHandleFree fs →
      (Registry.standard .interface).resolve fs v = .error (.handle .missingKind)) := by
  obtain ⟨hinert, hfree⟩ := inert_of_resolve h
  have hsettles : Json.Settles (.standard .interface) fs v := hinert.settles
  rw [Json.Settles, hfree] at hsettles
  rcases hsettles with ⟨hprops, hres⟩ | ⟨hprops, hres⟩
  · exact ⟨hfree, fun _ => hres, fun hno => absurd hprops hno⟩
  · exact ⟨hfree, fun hyes => absurd hyes hprops, fun _ => hres⟩

/-- A component with one more property beside the one that is named like the field of a handle. -/
theorem Tree.resolve_resolved_beside : ∃ t v,
    compile (cardWith ["$resource", "label"]) cardConfig = .ok t ∧
      (Registry.standard .interface).resolve (cardWith ["$resource", "label"]) t.toJson = .ok v ∧
      (Registry.standard .interface).resolve (cardWith ["$resource", "label"]) v = .ok v := by
  have hnames : ∀ n ∈ ["$resource", "label"], Member.IsName n.toList := by decide
  obtain ⟨t, v, ht, hv, hfree⟩ := exists_resolve_cardWith hnames
  exact ⟨t, v, ht, hv, (resolve_resolved hv).2.1 (hfree.2 (by simp [NamesHandle, handleKey]))⟩

/-- With that property alone, what has been resolved is not resolved once more. -/
theorem Tree.resolve_resolved_alone : ∃ t v,
    compile (cardWith ["$resource"]) cardConfig = .ok t ∧
      (Registry.standard .interface).resolve (cardWith ["$resource"]) t.toJson = .ok v ∧
      ¬ v.HandleFree ∧
      (Registry.standard .interface).resolve (cardWith ["$resource"]) v =
        .error (.handle .missingKind) := by
  have hnames : ∀ n ∈ ["$resource"], Member.IsName n.toList := by decide
  obtain ⟨t, v, ht, hv, hfree⟩ := exists_resolve_cardWith hnames
  obtain ⟨hinert, hiff⟩ := inert_of_resolve hv
  have hlike : ¬ v.HandleFree := by
    rw [hiff, hfree]
    simp [NamesHandle, handleKey]
  have hsettles : Json.Settles (.standard .interface) (cardWith ["$resource"]) v := hinert.settles
  exact ⟨t, v, ht, hv, hlike, (hsettles.resolve_left fun h => hlike h.1).2⟩

end StyleGuide
