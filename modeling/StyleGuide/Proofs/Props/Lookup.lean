import StyleGuide.Proofs.Props.Interface
import StyleGuide.Proofs.Props.Value

/-!
# Looking a property up

A property can be asked of a document by its name, or be found under its name in the value of the
document. Where a source declares a name more than once, the first declaration is the one that is
asked for, and it is the one that gets the default value. In the value of the document the last
declaration is left, and it has no default value.

## Main definitions

* `PropDescriptor.value`, `PropsDoc.emitted?`: a property as a value, and what the value of a
  document holds under a name.
* `Interface.attached?`: the default value that a source gives to a name.

## Main results

* `Interface.lookup_foldl_setDefault`, `Interface.lookup_reverse_foldl_setDefault`: the first and
  the last property of a name behind all default values.
* `Interface.emitted?_of_extract`: when both ways to look a property up agree.
-/

namespace StyleGuide

/-- A property as a value. -/
def PropDescriptor.value (p : PropDescriptor) : Json := (descriptorJson p).merged

/-- What the value of a document holds of the property of that name. -/
def PropsDoc.emitted? (d : PropsDoc) (name : String) : Option Json :=
  (d.toJson.merged.field? "props").bind fun props => props.field? name

/-- The value of a document holds the last property of each name. -/
lemma PropsDoc.emitted?_eq (d : PropsDoc) (name : String) :
    d.emitted? name = (d.props.reverse.lookup name).map PropDescriptor.value := by
  have hprops : d.toJson.merged.field? "props" =
      some (Json.object (fieldsJson d.props)).merged := by
    rw [toJson, Json.field?_merged_object]
    rfl
  rw [emitted?, hprops, Option.bind_some, Json.field?_merged_object, fieldsJson_eq_map,
    ← List.map_reverse, lookup_map, Option.map_map]
  rfl

/-- The value of a property has a default value where the property has one. -/
lemma PropDescriptor.field?_value (p : PropDescriptor) :
    p.value.field? "defaultValue" = p.default.map fun v => v.toJson.merged := by
  obtain ⟨type, flowType, required, default, description⟩ := p
  have hfields := Descriptor.lookup_fields
    ⟨typeJson? type, typeJson? flowType, required, default, description⟩
  rw [value, descriptorJson, Json.field?_merged_object, lookup_reverse_of_count_le_one
    (List.nodup_iff_count_le_one.1 (Descriptor.nodup_fields _) _), hfields.2.2.2.1, Option.map_map]
  rfl

namespace Interface

/-! ## Default values -/

/-- The default value that a text stands for. -/
def defaultOf (value : List Char) : DefaultValue := ⟨String.ofList value, !isLiteral value⟩

/-- The default value that is given last to a name. -/
def lastDefault? (ds : List (List Char × List Char)) (name : String) : Option DefaultValue :=
  (ds.reverse.lookup name.toList).map defaultOf

/-- The default value that a source gives to a name. -/
def attached? (source name : String) : Option DefaultValue :=
  lastDefault? (defaults source.toList) name

variable {props : List (String × PropDescriptor)} {d : List Char × List Char} {name : String}
  {ds : List (List Char × List Char)}

/-- A default value that is given later counts instead. -/
lemma lastDefault?_append_singleton :
    lastDefault? (ds ++ [d]) name =
      if name = String.ofList d.1 then some (defaultOf d.2) else lastDefault? ds name := by
  obtain ⟨target, value⟩ := d
  have htarget : name.toList = target ↔ name = String.ofList target := by
    rw [← String.toList_inj, String.toList_ofList]
  rw [lastDefault?, List.reverse_append, List.reverse_singleton, List.singleton_append,
    lookup_cons_eq, apply_ite (Option.map defaultOf)]
  simp only [htarget]
  rfl

/-- The first property of a name gets the default value. -/
lemma lookup_setDefault :
    (setDefault props d).lookup name = (props.lookup name).map fun p =>
      if name = String.ofList d.1 then { p with default := some (defaultOf d.2) } else p := by
  induction props with
  | nil => rfl
  | cons q props ih =>
    obtain ⟨k, p⟩ := q
    rw [setDefault, lookup_cons_eq]
    split
    next hk =>
      by_cases hname : name = k
      · simp [hname, hk, defaultOf]
      · have hd : name ≠ String.ofList d.1 := fun heq => hname (heq.trans hk.symm)
        simp [lookup_cons_eq, hname, hd]
    next hk =>
      by_cases hname : name = k
      · simp [hname, hk]
      · simp only [lookup_cons_eq, if_neg hname, ih]

/-- Other properties stay what they are. -/
lemma lookup_reverse_setDefault_of_ne (h : name ≠ String.ofList d.1) :
    (setDefault props d).reverse.lookup name = props.reverse.lookup name := by
  induction props with
  | nil => rfl
  | cons q props ih =>
    obtain ⟨k, p⟩ := q
    rw [setDefault]
    split_ifs with hk
    · rw [lookup_reverse_cons, lookup_reverse_cons, if_neg (hk ▸ h), if_neg (hk ▸ h)]
    · rw [lookup_reverse_cons, lookup_reverse_cons, ih]

/-- The last property of a name stays what it is, unless it is the first one as well. -/
lemma lookup_reverse_setDefault (h : 1 < (props.map Prod.fst).count name) :
    (setDefault props d).reverse.lookup name = props.reverse.lookup name := by
  by_cases hname : name = String.ofList d.1
  swap
  · exact lookup_reverse_setDefault_of_ne hname
  induction props with
  | nil => simp at h
  | cons q props ih =>
    obtain ⟨k, p⟩ := q
    rw [setDefault]
    split_ifs with hk
    · -- The first property has this name, so another one that has it follows.
      have hk' : k = name := hk.trans hname.symm
      have hmem : name ∈ props.map Prod.fst := by
        rw [List.map_cons, hk', List.count_cons_self] at h
        exact List.count_pos_iff.1 (by omega)
      obtain ⟨p', hp'⟩ := exists_lookup_reverse hmem
      rw [lookup_reverse_cons, lookup_reverse_cons, hp', Option.some_or, Option.some_or]
    · have hne : k ≠ name := fun heq => hk (heq.trans hname)
      rw [List.map_cons, List.count_cons_of_ne hne] at h
      rw [lookup_reverse_cons, lookup_reverse_cons, ih h]

/-- The first property of a name ends up with the default value that is given last to the name. -/
theorem lookup_foldl_setDefault :
    (ds.foldl setDefault props).lookup name = (props.lookup name).map fun p =>
      { p with default := (lastDefault? ds name).or p.default } := by
  induction ds using List.reverseRecOn with
  | nil => simp [lastDefault?]
  | append_singleton ds d ih =>
    rw [List.foldl_append, List.foldl_cons, List.foldl_nil, lookup_setDefault, ih, Option.map_map]
    congr 1
    funext p
    rw [Function.comp_apply, lastDefault?_append_singleton]
    split <;> rfl

/-- The last property of a name that is declared more than once stays what it is. -/
theorem lookup_reverse_foldl_setDefault (h : 1 < (props.map Prod.fst).count name) :
    (ds.foldl setDefault props).reverse.lookup name = props.reverse.lookup name := by
  induction ds using List.reverseRecOn with
  | nil => rfl
  | append_singleton ds d ih =>
    have hcount : 1 < ((ds.foldl setDefault props).map Prod.fst).count name := by
      rwa [map_foldl_setDefault fun _ _ _ => rfl]
    rw [List.foldl_append, List.foldl_cons, List.foldl_nil, lookup_reverse_setDefault hcount, ih]

/-! ## Documents of a source -/

/-- A document has the properties that the members of the interface declare, and then the default
values of the source. -/
lemma exists_members_of_extract {source : String} {doc : PropsDoc}
    (h : extract source = .ok doc) :
    ∃ body members, body? source.toList = some body ∧ Member.readAll body = .ok members ∧
      doc.props = (defaults source.toList).foldl setDefault
        (members.map fun m => PropType.ofMember m (.read m.type)) := by
  unfold extract at h
  cases hbody : body? source.toList with
  | none => simp [hbody] at h
  | some body =>
    cases hread : Member.readAll body with
    | error text => simp [hbody, hread] at h
    | ok members =>
      simp only [hbody, hread, Except.ok.injEq] at h
      exact ⟨body, members, rfl, hread, by rw [← h]⟩

/-- The properties that are declared have no default values of their own. -/
lemma exists_declared_of_extract {source : String} {doc : PropsDoc}
    (h : extract source = .ok doc) :
    ∃ declared : List (String × PropDescriptor),
      doc.props = (defaults source.toList).foldl setDefault declared ∧
        ∀ p ∈ declared, p.2.default = none := by
  obtain ⟨_, members, -, -, hprops⟩ := exists_members_of_extract h
  exact ⟨_, hprops, List.forall_mem_map.2 fun m _ => rfl⟩

/-- The property that is asked for has the default value of the source. -/
lemma default_of_get? {source : String} {doc : PropsDoc} (h : extract source = .ok doc)
    {p : PropDescriptor} (hp : doc.get? name = some p) : p.default = attached? source name := by
  obtain ⟨declared, hprops, hnone⟩ := exists_declared_of_extract h
  rw [PropsDoc.get?, hprops, lookup_foldl_setDefault] at hp
  obtain ⟨q, hq, rfl⟩ := Option.map_eq_some_iff.1 hp
  obtain ⟨before, after, heq, -⟩ := List.lookup_eq_some_iff.1 hq
  have hdefault : q.default = none := hnone (name, q) (by simp [heq])
  rw [hdefault, Option.or_none, attached?]

/-- The last property of a name that is declared more than once has no default value. -/
lemma default_of_lookup_reverse {source : String} {doc : PropsDoc} (h : extract source = .ok doc)
    (hcount : 1 < (doc.props.map Prod.fst).count name) {p : PropDescriptor}
    (hp : doc.props.reverse.lookup name = some p) : p.default = none := by
  obtain ⟨declared, hprops, hnone⟩ := exists_declared_of_extract h
  rw [hprops, map_foldl_setDefault fun _ _ _ => rfl] at hcount
  rw [hprops, lookup_reverse_foldl_setDefault hcount] at hp
  exact hnone _ (mem_of_lookup_reverse hp)

/-- A name can be asked for in a document just where it is found in the value of the document. What
is asked for is the first property of the name, which has the default value of the source, and what
is found is the last one. Where a name is declared once, both are the same property; where it is
declared again, they are never the same if the source gives it a default value. -/
theorem emitted?_of_extract {source : String} {doc : PropsDoc} (h : extract source = .ok doc)
    (name : String) :
    ((doc.emitted? name).isSome ↔ (doc.get? name).isSome) ∧
      (∀ p, doc.get? name = some p → p.default = attached? source name) ∧
      doc.emitted? name = (doc.props.reverse.lookup name).map PropDescriptor.value ∧
      ((doc.props.map Prod.fst).count name ≤ 1 →
        doc.emitted? name = (doc.get? name).map PropDescriptor.value) ∧
      (1 < (doc.props.map Prod.fst).count name → (attached? source name).isSome →
        doc.emitted? name ≠ (doc.get? name).map PropDescriptor.value) := by
  refine ⟨?_, fun p => default_of_get? h, doc.emitted?_eq name, fun hcount => ?_,
    fun hcount hattached heq => ?_⟩
  · rw [PropsDoc.emitted?_eq, PropsDoc.get?, Option.isSome_map, List.lookup_isSome_iff,
      List.lookup_isSome_iff]
    simp only [List.mem_reverse]
  · rw [PropsDoc.emitted?_eq, lookup_reverse_of_count_le_one hcount, PropsDoc.get?]
  · -- The last property has no default value, while the first one has one.
    have hmem : name ∈ doc.props.map Prod.fst := List.count_pos_iff.1 (by omega)
    obtain ⟨last, hlast⟩ := exists_lookup_reverse hmem
    rw [PropsDoc.emitted?_eq, hlast, Option.map_some] at heq
    obtain ⟨first, hfirst, hvalue⟩ := Option.map_eq_some_iff.1 heq.symm
    have hdefault := congrArg (Json.field? · "defaultValue") hvalue
    simp only [PropDescriptor.field?_value, default_of_get? h hfirst,
      default_of_lookup_reverse h hcount hlast, Option.map_none,
      Option.map_eq_none_iff] at hdefault
    simp [hdefault] at hattached

/-- A member `size` of the type of that name. -/
def sizeMember (typeName : String) : Documented := ⟨"size", false, .primitive typeName, []⟩

/-- The source of an interface with these members, and of a component that gives `size` a default
value. -/
def sizeSource (members : List Documented) : String :=
  String.ofList (print ⟨2, 2⟩ "Card".toList (members.map (·.toMember)) ++
    "\nexport function Card(\x7b size = 1 \x7d: CardProps) \x7b\x7d\n".toList)

lemma extract_sizeSource {members : List Documented} (h : ∀ d ∈ members, d.IsReadable)
    (hdescription : description (sizeSource members).toList = [])
    (hdefaults : defaults (sizeSource members).toList = [("size".toList, ['1'])]) :
    extract (sizeSource members) =
      .ok ⟨"", setDefault (members.map (·.toProp)) ("size".toList, ['1'])⟩ := by
  rw [sizeSource, String.toList_ofList] at hdescription hdefaults
  have hcomponent : ∀ c ∈ "Card".toList, isWord c = true := List.all_eq_true.1 (by decide)
  have hextract := extract_print_eq ⟨2, 2⟩ hcomponent h
    "\nexport function Card(\x7b size = 1 \x7d: CardProps) \x7b\x7d\n".toList
  rw [sizeSource, hextract, hdescription, hdefaults]
  rfl

/-- The source is
```
interface CardProps {
  size: number;
}
export function Card({ size = 1 }: CardProps) {}
```
-/
theorem emitted?_sizeMember :
    ∃ doc, extract (sizeSource [sizeMember "number"]) = .ok doc ∧
      doc.get? "size" = some ⟨some (.primitive "number"), none, true, some ⟨"1", false⟩, ""⟩ ∧
      doc.emitted? "size" = (doc.get? "size").map PropDescriptor.value := by
  have hreadable : (sizeMember "number").IsReadable :=
    ⟨by decide, .primitive (by decide) (by decide), by simp [sizeMember]⟩
  have hextract := extract_sizeSource (List.forall_mem_singleton.2 hreadable)
    (by decide) (by decide)
  exact ⟨_, hextract, rfl, (emitted?_of_extract hextract "size").2.2.2.1 (by decide)⟩

/-- The source is
```
interface CardProps {
  size: string;
  size: number;
}
export function Card({ size = 1 }: CardProps) {}
```
-/
theorem emitted?_sizeMember_twice :
    ∃ doc, extract (sizeSource [sizeMember "string", sizeMember "number"]) = .ok doc ∧
      doc.get? "size" = some ⟨some (.primitive "string"), none, true, some ⟨"1", false⟩, ""⟩ ∧
      doc.emitted? "size" ≠ (doc.get? "size").map PropDescriptor.value := by
  have hstring : (sizeMember "string").IsReadable :=
    ⟨by decide, .primitive (by decide) (by decide), by simp [sizeMember]⟩
  have hnumber : (sizeMember "number").IsReadable :=
    ⟨by decide, .primitive (by decide) (by decide), by simp [sizeMember]⟩
  have hextract := extract_sizeSource
    (List.forall_mem_cons.2 ⟨hstring, List.forall_mem_singleton.2 hnumber⟩)
    (by decide) (by decide)
  refine ⟨_, hextract, rfl, fun heq => ?_⟩
  rw [PropsDoc.emitted?_eq] at heq
  have hdefault := congrArg (Option.bind · (Json.field? · "defaultValue")) heq
  cases hdefault

end Interface

end StyleGuide
