import StyleGuide.Proofs.Props.Destructured
import StyleGuide.Proofs.Props.Parts

/-!
# Types that are read are well-formed

Whatever text a type is read from, the result keeps to what the writers of types keep to, at every
depth: an enumeration has several literals, a union has several members, the fields of a shape have
names and types, and nothing is left as the text of an expression. A default value is known only of
a property of the whole document, and of no field of a shape.

## Main definitions

* `PropType.IsDeclared`: what is known of a property by its declaration.
* `PropType.IsWellFormed`: the types that are well-formed at every depth.

## Main results

* `PropType.isWellFormed_read`: every text is read as such a type.
* `Interface.isWellFormed_read_extract`: so are the types in a document that is extracted.
-/

namespace StyleGuide

namespace PropType

open StyleGuide.Bracket Member

/-! ## Well-formed types -/

/-- What a declaration says about a property: it has a name and a type, and no other type. -/
structure IsDeclared (p : String × PropDescriptor) : Prop where
  isName : IsName p.1.toList
  hasType : p.2.type.isSome = true
  noFlowType : p.2.flowType = none

/-- A literal as it is found in a source, without the blanks around it. -/
structure IsFoundLiteral (v : EnumValue) : Prop where
  isLiteral : isLiteral v.value.toList = true
  isTrimmed : IsTrimmed v.value.toList
  notComputed : v.computed = false

/-- The types that are well-formed at every depth. Instances of classes, and enumerations and unions
that are given by expressions, are not among them. -/
inductive IsWellFormed : PropType → Prop
  | primitive {name : String} (trimmed : trim name.toList = name.toList) :
      IsWellFormed (primitive name)
  | arrayOf {item : PropType} (h : IsWellFormed item) : IsWellFormed (arrayOf item)
  | enumOf {values : List EnumValue} (several : 2 ≤ values.length)
      (literals : ∀ v ∈ values, IsFoundLiteral v) : IsWellFormed (enumOf values)
  | unionOf {members : List PropType} (several : 2 ≤ members.length)
      (h : ∀ t ∈ members, IsWellFormed t) : IsWellFormed (unionOf members)
  | shape {fields : List (String × PropDescriptor)} (declared : ∀ f ∈ fields, IsDeclared f)
      (noDefault : ∀ f ∈ fields, f.2.default = none)
      (h : ∀ f ∈ fields, ∀ t, f.2.type = some t → IsWellFormed t) : IsWellFormed (shape fields)

/-! ## Types that are read -/

lemma isTrimmed_of_mem_alternatives {cs part : List Char} (h : part ∈ alternatives cs) :
    IsTrimmed part := by
  have hpart : part ∈ parts (· == '|') cs := h
  exact isTrimmed_of_mem_parts hpart

/-- The only alternative of a text, or all of it, has no blanks around it. -/
lemma trim_headD_alternatives (raw : List Char) :
    trim ((alternatives (trim raw)).headD (trim raw)) =
      (alternatives (trim raw)).headD (trim raw) := by
  cases hparts : alternatives (trim raw) with
  | nil => exact trim_trim raw
  | cons p parts =>
    have hp : p ∈ alternatives (trim raw) := hparts ▸ List.mem_cons_self
    exact (isTrimmed_of_mem_alternatives hp).trim_eq

lemma isWellFormed_ofName {cs : List Char} (h : trim cs = cs) :
    IsWellFormed (ofName (String.ofList cs)) := by
  unfold ofName
  split
  · exact .primitive (by decide)
  · split
    · exact .primitive (by decide)
    · exact .primitive (by rwa [String.toList_ofList])

/-- Each alternative that is a literal is found without the blanks around it. -/
lemma isWellFormed_literals {cs : List Char} (several : 2 ≤ (alternatives cs).length)
    (hliterals : (alternatives cs).all isLiteral = true) :
    IsWellFormed (enumOf ((alternatives cs).map fun p => ⟨String.ofList p, false⟩)) := by
  refine .enumOf (by simpa using several) (List.forall_mem_map.2 fun p hp => ⟨?_, ?_, rfl⟩)
  · simpa using List.all_eq_true.1 hliterals p hp
  · simpa using isTrimmed_of_mem_alternatives hp

/-- A member declares its property, and says nothing about default values. -/
lemma isDeclared_ofMember {m : Member} (h : IsName m.name) (t : PropType) :
    IsDeclared (ofMember m t) :=
  ⟨by simpa [ofMember] using h, rfl, rfl⟩

lemma isWellFormed_members {ms : List Member} (hnames : ∀ m ∈ ms, IsName m.name)
    (h : ∀ m ∈ ms, IsWellFormed (read m.type)) :
    IsWellFormed (shape (ms.map fun m => ofMember m (read m.type))) := by
  refine .shape (List.forall_mem_map.2 fun m hm => isDeclared_ofMember (hnames m hm) _)
    (List.forall_mem_map.2 fun m _ => rfl) (List.forall_mem_map.2 fun m hm t ht => ?_)
  cases ht
  exact h m hm

/-- Every text is read as a type that is well-formed at every depth. -/
theorem isWellFormed_read (raw : List Char) : IsWellFormed (read raw) := by
  -- The cases are the forms that are tried one after another, with the types inside as hypotheses.
  fun_induction read raw with
  | case1 raw text hfunction => exact .primitive (by decide)
  | case2 raw text hfunction several hliterals => exact isWellFormed_literals several hliterals
  | case3 raw text hfunction several hliterals ih =>
    refine .unionOf (by simpa using several) (List.forall_mem_map.2 fun p _ => ih p)
  | case4 raw text hfunction hone single inner hround ih => exact ih
  | case5 raw text hfunction hone single hround inner hsquare ih => exact .arrayOf ih
  | case6 raw text hfunction hone single hround hsquare inner harray ih => exact .arrayOf ih
  | case7 raw text hfunction hone single hround hsquare harray inner hcurly ms hms ih =>
    have hattach : (ms.attach.map fun m => ofMember m.1 (read m.1.type)) =
        ms.map fun m => ofMember m (read m.type) := by simp
    rw [hattach]
    exact isWellFormed_members (isName_of_readAll hms) fun m hm => ih ⟨m, hm⟩
  | case8 raw text hfunction hone single hround hsquare harray inner hcurly e hms =>
    exact .primitive (by decide)
  | case9 raw text hfunction hone single hround hsquare harray hcurly =>
    exact isWellFormed_ofName (trim_headD_alternatives raw)

end PropType

namespace Interface

open Member PropType

/-! ## Documents that are extracted -/

/-- Up to its default value, a property of a document is what one of its members declares. -/
lemma exists_member_of_mem_props {source : String} {doc : PropsDoc} (h : extract source = .ok doc)
    {p : String × PropDescriptor} (hp : p ∈ doc.props) :
    ∃ m : Member, IsName m.name ∧
      (p.1, { p.2 with default := none }) = ofMember m (.read m.type) := by
  obtain ⟨_, members, -, hread, hprops⟩ := exists_members_of_extract h
  have hmem := List.mem_map_of_mem
    (f := fun p : String × PropDescriptor => (p.1, { p.2 with default := none })) hp
  rw [hprops, map_foldl_setDefault fun _ _ _ => rfl, List.map_map] at hmem
  obtain ⟨m, hm, heq⟩ := List.mem_map.1 hmem
  exact ⟨m, isName_of_readAll hread m hm, heq.symm⟩

/-- Whatever text a type is read from, it is well-formed at every depth. The properties of a
document that is extracted have such types only, so that default values are known of them and of
nothing inside of their types. -/
theorem isWellFormed_read_extract :
    (∀ raw : List Char, IsWellFormed (read raw)) ∧
      ∀ (source : String) (doc : PropsDoc), extract source = .ok doc →
        ∀ p ∈ doc.props, IsDeclared p ∧ ∀ t, p.2.type = some t → IsWellFormed t := by
  refine ⟨isWellFormed_read, fun source doc hdoc p hp => ?_⟩
  obtain ⟨m, hname, heq⟩ := exists_member_of_mem_props hdoc hp
  have hdeclared := isDeclared_ofMember hname (.read m.type)
  rw [← heq] at hdeclared
  have htype : p.2.type = some (.read m.type) := congrArg (fun p => p.2.type) heq
  refine ⟨⟨hdeclared.isName, hdeclared.hasType, hdeclared.noFlowType⟩, fun t ht => ?_⟩
  rw [htype] at ht
  cases ht
  exact isWellFormed_read m.type

/-- A table that takes an array of shapes, and a size that is an enumeration. -/
def tableSource : String :=
  "interface TableProps \x7b\n" ++
    "  rows: \x7b id: number; kind?: 'head' | 'body' \x7d[];\n" ++
    "  size?: 'small' | 'large';\n" ++
    "\x7d\n" ++
    "export function Table(\x7b rows, size = 'small' \x7d: TableProps) \x7b\x7d\n"

/-- The source is
```
interface TableProps {
  rows: { id: number; kind?: 'head' | 'body' }[];
  size?: 'small' | 'large';
}
export function Table({ rows, size = 'small' }: TableProps) {}
```
-/
theorem isWellFormed_tableSource :
    ∃ doc, extract tableSource = .ok doc ∧
      doc.props.map (fun p => (p.1, p.2.default)) =
        [("rows", none), ("size", some ⟨"'small'", false⟩)] ∧
      ∀ p ∈ doc.props, IsDeclared p ∧ ∀ t, p.2.type = some t → IsWellFormed t := by
  have hextract : (extract tableSource).toOption.map (fun doc =>
      doc.props.map fun p => (p.1, p.2.default)) =
        some [("rows", none), ("size", some ⟨"'small'", false⟩)] := by
    decide +kernel
  cases hdoc : extract tableSource with
  | error e =>
    rw [hdoc] at hextract
    cases hextract
  | ok doc =>
    rw [hdoc] at hextract
    exact ⟨doc, rfl, Option.some.inj hextract, isWellFormed_read_extract.2 tableSource doc hdoc⟩

end Interface

end StyleGuide
