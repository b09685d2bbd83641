import StyleGuide.Proofs.Json.Everywhere
import StyleGuide.Proofs.Reference
import StyleGuide.Proofs.Sequence

/-!
# The grammar of handles

A value is a handle when `$resource` is its only field. What stands there is the body of the handle,
and it is read as a reference or refused, whatever else it holds and in whatever order. A body that
is refused for more than one reason is refused for the one that comes first: its kind, its path, and
then its parameters in their order.

## Main definitions

* `Json.HasField`, `Json.IsText`: what an object holds, in any order.
* `Reference.BodyReads`: the reference that a body stands for, or the reason why it is refused.

## Main results

* `Reference.ofBody_eq_iff`: a body is read by these rules.
* `Reference.ofHandle?_grammar`: what is a handle, what it is read as, and that writing it again
  changes nothing.
-/

namespace StyleGuide

namespace Json

variable {v : Json} {name : String}

/-- The value is an object with that value under the name. -/
def HasField (v : Json) (name : String) (value : Json) : Prop :=
  ∃ fields, v = .object fields ∧ (name, value) ∈ fields

/-- The value is a text. -/
def IsText (v : Json) : Prop := ∃ s, v = .string s

lemma NamesDistinct.hasField_iff (h : v.NamesDistinct) {value : Json} :
    v.HasField name value ↔ v.field? name = some value := by
  cases v with
  | object fields =>
    obtain ⟨hnodup, -⟩ := everywhere_object_iff.1 h
    rw [field?, lookup_eq_some_iff_mem hnodup]
    simp [HasField]
  | _ => simp [HasField, field?]

/-- What stands under a name in a value without repeated names has none either. -/
lemma NamesDistinct.of_field? (h : v.NamesDistinct) {value : Json}
    (hfield : v.field? name = some value) : value.NamesDistinct := by
  obtain ⟨fields, rfl, hmem⟩ := h.hasField_iff.2 hfield
  exact (everywhere_object_iff.1 h).2 _ hmem

lemma bind_string?_eq_some_iff {j : Option Json} {s : String} :
    j.bind string? = some s ↔ j = some (.string s) := by
  cases j with
  | none => simp
  | some j => cases j <;> simp [string?]

lemma bind_string?_eq_none_iff {j : Option Json} :
    j.bind string? = none ↔ ∀ s, j ≠ some (.string s) := by
  rw [Option.eq_none_iff_forall_ne_some]
  exact forall_congr' fun s => not_congr bind_string?_eq_some_iff

lemma bind_fields?_eq_some_iff {j : Option Json} {fields : List (String × Json)} :
    j.bind fields? = some fields ↔ j = some (.object fields) := by
  cases j with
  | none => simp
  | some j => cases j <;> simp [fields?]

end Json

namespace ResourceKind

lemma ofName?_eq_some_iff {s : String} {k : ResourceKind} : ofName? s = some k ↔ k.name = s := by
  constructor
  · intro h
    unfold ofName? at h
    split_ifs at h with h₁ h₂ h₃ <;> cases h <;> exact Eq.symm ‹_›
  · rintro rfl
    exact ofName?_name k

end ResourceKind

namespace Reference

/-! ## Parameters -/

/-- The parameter that a field stands for. -/
def readParam (f : String × Json) : Except HandleError (String × String) :=
  match f.2 with
  | .string s => .ok (f.1, s)
  | _ => .error (.invalidParam f.1)

lemma readParam_eq_ok_iff {f : String × Json} {p : String × String} :
    readParam f = .ok p ↔ f = (p.1, .string p.2) := by
  obtain ⟨k, v⟩ := f
  obtain ⟨k', s⟩ := p
  cases v <;> simp [readParam]

lemma readParam_eq_error_iff {f : String × Json} {e : HandleError} :
    readParam f = .error e ↔ ¬ f.2.IsText ∧ .invalidParam f.1 = e := by
  obtain ⟨k, v⟩ := f
  cases v <;> simp [readParam, Json.IsText]

lemma readParams_eq_mapM (fields : List (String × Json)) :
    readParams fields = fields.mapM readParam := by
  induction fields with
  | nil => rfl
  | cons f fields ih =>
    obtain ⟨k, v⟩ := f
    rw [List.mapM_cons, ← ih]
    cases v with
    | string s =>
      rw [readParams]
      cases readParams fields <;> rfl
    | _ => rfl

/-- Fields that are all texts are read as parameters in their order. -/
lemma readParams_eq_ok_iff {fields : List (String × Json)} {params : List (String × String)} :
    readParams fields = .ok params ↔ fields = params.map fun p => (p.1, .string p.2) := by
  rw [readParams_eq_mapM, mapM_eq_ok_iff, ← List.forall₂_eq_eq_eq, List.forall₂_map_right_iff]
  simp only [readParam_eq_ok_iff]

/-- The first field that is no text is the one that is refused. -/
lemma readParams_eq_error_iff {fields : List (String × Json)} {e : HandleError} :
    readParams fields = .error e ↔
      ∃ before f after, fields = before ++ f :: after ∧ (∀ g ∈ before, g.2.IsText) ∧
        ¬ f.2.IsText ∧ .invalidParam f.1 = e := by
  have htext : ∀ g : String × Json, (∃ p, readParam g = .ok p) ↔ g.2.IsText := by
    rintro ⟨k, v⟩
    cases v <;> simp [readParam, Json.IsText]
  rw [readParams_eq_mapM, mapM_eq_error_iff]
  simp only [FailsFirst, readParam_eq_error_iff, htext]

/-! ## Bodies -/

/-- The rules by which the body of a handle is read. -/
inductive BodyReads (body : Json) : Except HandleError Reference → Prop
  | missingKind (h : ∀ s, ¬ body.HasField "kind" (.string s)) :
    BodyReads body (.error .missingKind)
  | unknownKind {name : String} (hkind : body.HasField "kind" (.string name))
      (h : ∀ kind : ResourceKind, kind.name ≠ name) :
    BodyReads body (.error (.unknownKind name))
  | missingPath {kind : ResourceKind} (hkind : body.HasField "kind" (.string kind.name))
      (h : ∀ s, ¬ body.HasField "path" (.string s)) :
    BodyReads body (.error .missingPath)
  | invalidParam {kind : ResourceKind} {path : String} {before after : List (String × Json)}
      {f : String × Json} (hkind : body.HasField "kind" (.string kind.name))
      (hpath : body.HasField "path" (.string path))
      (hparams : body.HasField "params" (.object (before ++ f :: after)))
      (hbefore : ∀ g ∈ before, g.2.IsText) (h : ¬ f.2.IsText) :
    BodyReads body (.error (.invalidParam f.1))
  | parameterized {kind : ResourceKind} {path : String} {params : List (String × String)}
      (hkind : body.HasField "kind" (.string kind.name))
      (hpath : body.HasField "path" (.string path))
      (hparams : body.HasField "params" (.object (params.map fun p => (p.1, .string p.2)))) :
    BodyReads body (.ok ⟨kind, .ofString path, params⟩)
  /-- Without an object under `params` there are no parameters. -/
  | bare {kind : ResourceKind} {path : String}
      (hkind : body.HasField "kind" (.string kind.name))
      (hpath : body.HasField "path" (.string path))
      (hparams : ∀ fields, ¬ body.HasField "params" (.object fields)) :
    BodyReads body (.ok (.bare kind (.ofString path)))

section Body

variable {body : Json} {kind : ResourceKind} {path : String}

lemma ofBody_of_unknownKind {name : String}
    (hkind : (body.field? "kind").bind Json.string? = some name)
    (h : ResourceKind.ofName? name = none) : ofBody body = .error (.unknownKind name) := by
  simp only [ofBody, hkind, h]
  rfl

lemma ofBody_of_missingPath (hkind : (body.field? "kind").bind Json.string? = some kind.name)
    (h : (body.field? "path").bind Json.string? = none) : ofBody body = .error .missingPath := by
  simp only [ofBody, hkind, ResourceKind.ofName?_name, h]
  rfl

/-- With a kind and a path, all depends on the parameters. -/
lemma ofBody_eq_map (hkind : (body.field? "kind").bind Json.string? = some kind.name)
    (hpath : (body.field? "path").bind Json.string? = some path) :
    ofBody body = (readParams (((body.field? "params").bind Json.fields?).getD [])).map
      fun params => ⟨kind, .ofString path, params⟩ := by
  simp only [ofBody, hkind, ResourceKind.ofName?_name, hpath]
  cases readParams (((body.field? "params").bind Json.fields?).getD []) <;> rfl

/-- Every body is read by one of the rules. -/
lemma bodyReads_ofBody (h : body.NamesDistinct) : BodyReads body (ofBody body) := by
  cases hkind : (body.field? "kind").bind Json.string? with
  | none =>
    rw [ofBody_of_missingKind hkind]
    exact .missingKind fun s hs => Json.bind_string?_eq_none_iff.1 hkind s (h.hasField_iff.1 hs)
  | some name =>
    have hkindField := h.hasField_iff.2 (Json.bind_string?_eq_some_iff.1 hkind)
    cases hname : ResourceKind.ofName? name with
    | none =>
      rw [ofBody_of_unknownKind hkind hname]
      refine .unknownKind hkindField fun kind hk => ?_
      rw [ResourceKind.ofName?_eq_some_iff.2 hk] at hname
      cases hname
    | some kind =>
      obtain rfl := ResourceKind.ofName?_eq_some_iff.1 hname
      cases hpath : (body.field? "path").bind Json.string? with
      | none =>
        rw [ofBody_of_missingPath hkind hpath]
        exact .missingPath hkindField fun s hs =>
          Json.bind_string?_eq_none_iff.1 hpath s (h.hasField_iff.1 hs)
      | some path =>
        have hpathField := h.hasField_iff.2 (Json.bind_string?_eq_some_iff.1 hpath)
        rw [ofBody_eq_map hkind hpath]
        cases hparams : (body.field? "params").bind Json.fields? with
        | none =>
          refine .bare hkindField hpathField fun fields hfields => ?_
          rw [h.hasField_iff.1 hfields] at hparams
          cases hparams
        | some fields =>
          have hparamsField := h.hasField_iff.2 (Json.bind_fields?_eq_some_iff.1 hparams)
          rw [Option.getD_some]
          cases hread : readParams fields with
          | error e =>
            obtain ⟨before, f, after, rfl, hbefore, hf, rfl⟩ := readParams_eq_error_iff.1 hread
            exact .invalidParam hkindField hpathField hparamsField hbefore hf
          | ok params =>
            obtain rfl := readParams_eq_ok_iff.1 hread
            exact .parameterized hkindField hpathField hparamsField

/-- The rules leave no choice. -/
lemma BodyReads.ofBody_eq (h : body.NamesDistinct) {o : Except HandleError Reference}
    (hreads : BodyReads body o) : ofBody body = o := by
  have htext : ∀ {name s : String}, body.HasField name (.string s) →
      (body.field? name).bind Json.string? = some s := fun hfield =>
    Json.bind_string?_eq_some_iff.2 (h.hasField_iff.1 hfield)
  have hnone : ∀ {name : String}, (∀ s, ¬ body.HasField name (.string s)) →
      (body.field? name).bind Json.string? = none := fun hno =>
    Json.bind_string?_eq_none_iff.2 fun s hs => hno s (h.hasField_iff.2 hs)
  cases hreads with
  | missingKind hno => exact ofBody_of_missingKind (hnone hno)
  | unknownKind hkind hno =>
    refine ofBody_of_unknownKind (htext hkind) (Option.eq_none_iff_forall_ne_some.2 ?_)
    exact fun kind hk => hno kind (ResourceKind.ofName?_eq_some_iff.1 hk)
  | missingPath hkind hno => exact ofBody_of_missingPath (htext hkind) (hnone hno)
  | invalidParam hkind hpath hparams hbefore hf =>
    rw [ofBody_eq_map (htext hkind) (htext hpath), h.hasField_iff.1 hparams,
      map_eq_error_iff]
    exact readParams_eq_error_iff.2 ⟨_, _, _, rfl, hbefore, hf, rfl⟩
  | parameterized hkind hpath hparams =>
    rw [ofBody_eq_map (htext hkind) (htext hpath), h.hasField_iff.1 hparams]
    exact map_eq_ok_iff.2 ⟨_, readParams_eq_ok_iff.2 rfl, rfl⟩
  | bare hkind hpath hno =>
    have hparams : (body.field? "params").bind Json.fields? = none := by
      refine Option.eq_none_iff_forall_ne_some.2 fun fields hfields => ?_
      exact hno fields (h.hasField_iff.2 (Json.bind_fields?_eq_some_iff.1 hfields))
    rw [ofBody_eq_map (htext hkind) (htext hpath), hparams]
    rfl

/-- A body is read by these rules and by no others. -/
theorem ofBody_eq_iff (h : body.NamesDistinct) {o : Except HandleError Reference} :
    ofBody body = o ↔ BodyReads body o :=
  ⟨fun ho => ho ▸ bodyReads_ofBody h, BodyReads.ofBody_eq h⟩

/-- What is read from a body can be written as a handle. -/
lemma isWritable_of_ofBody (h : body.NamesDistinct) {r : Reference} (hr : ofBody body = .ok r) :
    r.IsWritable := by
  cases (ofBody_eq_iff h).1 hr with
  | parameterized hkind hpath hparams =>
    obtain ⟨hnodup, -⟩ := Json.everywhere_object_iff.1 (h.of_field? (h.hasField_iff.1 hparams))
    exact ⟨⟨_, rfl⟩, by simpa [Function.comp_def] using hnodup⟩
  | bare => exact .bare _ _

end Body

/-! ## Handles -/

/-- A value is a handle when `$resource` is its only field, and then it is read as its body is. -/
lemma ofHandle?_eq_some_iff {v : Json} {o : Except HandleError Reference} :
    ofHandle? v = some o ↔ ∃ body, v = .object [(handleKey, body)] ∧ ofBody body = o := by
  cases v with
  | object fields =>
    rcases ofHandle?_eq_none_or fields with hnone | ⟨body, rfl, hsome⟩
    · rw [hnone]
      refine iff_of_false (by simp) ?_
      rintro ⟨body, heq, -⟩
      exact ofHandle?_eq_none_iff.1 hnone ⟨body, Json.object.inj heq⟩
    · rw [hsome]
      simp
  | _ => simp [ofHandle?]

/-- For a value in which no object names a field twice: it is a handle just when it is an object
whose only field is `$resource`. Then it is read by the rules for bodies, which give either a
reference or the one reason why there is none. A reference that is read is read again, unchanged,
from the handle that is written for it. -/
theorem ofHandle?_grammar {v : Json} (hv : v.NamesDistinct) :
    (ofHandle? v = none ↔ ∀ body, v ≠ .object [(handleKey, body)]) ∧
    (∀ body, v = .object [(handleKey, body)] →
      ∀ o, ofHandle? v = some o ↔ BodyReads body o) ∧
    ∀ r, ofHandle? v = some (.ok r) → ofHandle? r.handle = some (.ok r) := by
  have hbody : ∀ {body}, v = .object [(handleKey, body)] → body.NamesDistinct := by
    rintro body rfl
    exact (Json.everywhere_object_iff.1 hv).2 _ (List.mem_singleton_self _)
  refine ⟨?_, ?_, ?_⟩
  · rw [Option.eq_none_iff_forall_ne_some]
    constructor
    · exact fun hno body heq => hno _ (ofHandle?_eq_some_iff.2 ⟨body, heq, rfl⟩)
    · intro hno o ho
      obtain ⟨body, heq, -⟩ := ofHandle?_eq_some_iff.1 ho
      exact hno body heq
  · intro body heq o
    rw [ofHandle?_eq_some_iff, ← ofBody_eq_iff (hbody heq), heq]
    simp
  · intro r hr
    obtain ⟨body, heq, hread⟩ := ofHandle?_eq_some_iff.1 hr
    exact ofHandle?_handle (isWritable_of_ofBody (hbody heq) hread)

/-- A body with its fields in an order of its own, and with one that nothing asks for. -/
def looseBody : Json :=
  .object
    [("params", .object [("imagePath", .string "img/"), ("", .string "x")]),
     ("path", .string "a.md"), ("scale", .array [.decimal "0.5", .null]),
     ("kind", .string "examples")]

/-- The reference that it is read as. -/
def looseReference : Reference := ⟨.examples, .ofString "a.md", [("imagePath", "img/"), ("", "x")]⟩

/-- The handle with this body is read with its parameters in their order, and read again from what
is written for it. -/
theorem ofHandle?_looseBody : (Json.object [(handleKey, looseBody)]).NamesDistinct ∧
    ofHandle? (.object [(handleKey, looseBody)]) = some (.ok looseReference) ∧
    ofHandle? looseReference.handle = some (.ok looseReference) := by
  have hdistinct : (Json.object [(handleKey, looseBody)]).NamesDistinct :=
    Json.namesDistinct_iff.2 rfl
  obtain ⟨-, hreads, hstable⟩ := ofHandle?_grammar hdistinct
  have hbody : BodyReads looseBody (.ok looseReference) :=
    .parameterized ⟨_, rfl, by simp [ResourceKind.name]⟩ ⟨_, rfl, by simp⟩ ⟨_, rfl, by simp⟩
  have hread := (hreads _ rfl _).2 hbody
  exact ⟨hdistinct, hread, hstable _ hread⟩

end Reference

end StyleGuide
