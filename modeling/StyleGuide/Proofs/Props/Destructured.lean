import Mathlib.Data.List.TakeWhile
import StyleGuide.Proofs.Props.Literal
import StyleGuide.Proofs.Props.Lookup
import StyleGuide.Proofs.Props.Parameter

/-!
# Destructured default values

A component can name its properties in a destructured parameter and give them default values there.
Each property gets the text behind its name, as long as no comma stands in any of these texts: the
parameter is cut at every comma, also inside brackets and quotes.

## Main definitions

* `Interface.Destructured`: a name in a destructured parameter, maybe with a default value.
* `Interface.Shows`: a default value is shown as its text, and as computed unless it is one literal.

## Main results

* `Interface.defaults_of_first`: the default values of a source are those of its first parameter.
* `Interface.not_mem_of_mem_defaults`: no default value has a comma.
* `Interface.shows_default_iff`: when all properties get the default values that they should.
-/

namespace StyleGuide

namespace Member

/-! ## Names that are read -/

lemma toNat_lt_of_isAlpha {c : Char} (h : c.isAlpha = true) : c.toNat < 0x80 := by
  have hbelow : ∀ last : Char, last.val < 0x80 → c.val ≤ last.val → c.toNat < 0x80 :=
    fun _ hlast hc => UInt32.lt_iff_toNat_lt.1 (UInt32.lt_of_le_of_lt hc hlast)
  rcases Bool.or_eq_true_iff.1 h with hupper | hlower
  · have hrange : 'A'.val ≤ c.val ∧ c.val ≤ 'Z'.val := of_decide_eq_true hupper
    exact hbelow 'Z' (by decide) hrange.2
  · have hrange : (decide ('a'.val ≤ c.val) && decide (c.val ≤ 'z'.val)) = true := hlower
    exact hbelow 'z' (by decide) (of_decide_eq_true (Bool.and_eq_true_iff.1 hrange).2)

lemma continuesName_of_startsName {c : Char} (h : startsName c = true) :
    continuesName c = true := by
  simp only [startsName, Bool.or_eq_true, decide_eq_true_eq] at h
  rcases h with (h | rfl) | rfl
  · simp [continuesName, isWord, toNat_lt_of_isAlpha h, Char.isAlphanum, h]
  · decide
  · decide

lemma isName_of_readPlain? {cs name type : List Char} {isOptional : Bool}
    (h : readPlain? cs = some (name, isOptional, type)) : IsName name := by
  cases cs with
  | nil => cases h
  | cons c rest =>
    rw [readPlain?] at h
    split_ifs at h with hstarts
    simp only at h
    split at h
    · split at h
      · cases h
      · cases h
        refine ⟨⟨c, rfl, hstarts⟩,
          List.forall_mem_cons.2 ⟨continuesName_of_startsName hstarts, ?_⟩⟩
        exact fun x hx => List.all_eq_true.1 List.all_takeWhile x hx
    · cases h

lemma isName_of_readDeclaration? {cs name type : List Char} {isOptional : Bool}
    (h : readDeclaration? cs = some (name, isOptional, type)) : IsName name := by
  unfold readDeclaration? at h
  split at h
  · exact isName_of_readPlain? h
  · rcases Option.or_eq_some_iff.1 h with h | ⟨-, h⟩
    · exact isName_of_readPlain? h
    · exact isName_of_readPlain? h

lemma isName_of_readAll {body : List Char} {ms : List Member} (h : readAll body = .ok ms) :
    ∀ m ∈ ms, IsName m.name := by
  intro m hm
  obtain ⟨text, -, hread⟩ := exists_declaration_of_mem_ofPieces h hm
  exact isName_of_readDeclaration? hread

end Member

namespace Interface

open Member

/-- The properties of a source have names that a member can have. -/
lemma isName_of_extract {source : String} {doc : PropsDoc} (h : extract source = .ok doc) :
    ∀ p ∈ doc.props, IsName p.1.toList := by
  obtain ⟨_, members, -, hread, hprops⟩ := exists_members_of_extract h
  intro p hp
  -- Default values leave the names as they are.
  have hmem := List.mem_map_of_mem (f := Prod.fst) hp
  rw [hprops, map_foldl_setDefault fun _ _ _ => rfl, List.map_map] at hmem
  obtain ⟨m, hm, heq⟩ := List.mem_map.1 hmem
  rw [← heq]
  simpa [PropType.ofMember] using isName_of_readAll hread m hm

/-! ## A destructured name -/

/-- A name in a destructured parameter. -/
structure Destructured where
  name : List Char
  /-- What stands behind the equals sign. -/
  value : Option (List Char)
  /-- The blanks around the name. -/
  before : List Char
  after : List Char

namespace Destructured

/-- The name as it is written. -/
def text (d : Destructured) : List Char :=
  d.before ++ d.name ++ d.after ++
    match d.value with
    | none => []
    | some e => '=' :: e

/-- The names that can stand in a parameter: what stands behind the equals sign is not blank. -/
structure IsReadable (d : Destructured) : Prop where
  before : ∀ b ∈ d.before, isBlank b = true
  after : ∀ b ∈ d.after, isBlank b = true
  value : ∀ e, d.value = some e → trim e ≠ []

/-- The name with its default value, without the blanks around it. -/
def attached? (d : Destructured) : Option (List Char × List Char) :=
  d.value.map fun e => (d.name, trim e)

variable {d : Destructured}

/-- A name is read with the default value that is written behind it. -/
lemma default?_text (h : d.IsReadable) (hname : IsName d.name) : default? d.text = d.attached? := by
  obtain ⟨name, value, before, after⟩ := d
  obtain ⟨hbefore, hafter, hvalue⟩ := h
  simp only at hname hbefore hafter hvalue
  have hequals : ∀ c ∈ before ++ name ++ after, decide (c ≠ '=') = true := by
    have hnot : '=' ∉ name := fun hmem => by cases hname.continues _ hmem
    have hblank : isBlank '=' = false := rfl
    have hfront : '=' ∉ before ++ name ++ after := by
      simp [hnot, not_mem_blanks hbefore hblank, not_mem_blanks hafter hblank]
    exact fun c hc => by simpa using ne_of_mem_of_not_mem hc hfront
  have hname' : trim (before ++ name ++ after) = name :=
    hname.isTrimmed.trim_around hbefore hafter
  cases value with
  | none =>
    have hdrop : (before ++ name ++ after).dropWhile (· ≠ '=') = [] :=
      List.dropWhile_eq_nil_iff.2 hequals
    simp only [text, attached?, List.append_nil, default?, hdrop, Option.map_none]
  | some e =>
    have htake : (before ++ name ++ after ++ '=' :: e).takeWhile (· ≠ '=') =
        before ++ name ++ after :=
      takeWhile_append_cons_eq hequals (by simp) e
    have hdrop : (before ++ name ++ after ++ '=' :: e).dropWhile (· ≠ '=') = '=' :: e :=
      dropWhile_append_cons_eq hequals (by simp) e
    have hdots : "...".toList.isPrefixOf name = false := by
      obtain ⟨c, hc, hstarts⟩ := hname.starts
      obtain ⟨tail, rfl⟩ := List.head?_eq_some_iff.1 hc
      have hne : '.' ≠ c := by
        rintro rfl
        cases hstarts
      simp [List.isPrefixOf, hne]
    simp only [text, attached?, default?, htake, hdrop, hname', Option.map_some]
    rw [if_neg]
    rintro (hnil | hnil | hprefix)
    · exact hname.isTrimmed.ne_nil hnil
    · exact hvalue e rfl hnil
    · rw [hdots] at hprefix
      cases hprefix

/-! ## A destructured parameter -/

/-- The names between the braces. -/
def printAll (ds : List Destructured) : List Char := joinWith ',' (ds.map text)

variable {ds : List Destructured}

lemma joinWith_append_cons {x : Char} (front piece : List Char) (pieces : List (List Char)) :
    joinWith x ((front ++ piece) :: pieces) = front ++ joinWith x (piece :: pieces) := by
  cases pieces <;> simp [joinWith]

/-- The blanks in front of the first name are left out. -/
lemma contents_printAll (h : d.IsReadable) (hname : IsName d.name) (ds : List Destructured) :
    contents (printAll (d :: ds)) = printAll ({ d with before := [] } :: ds) := by
  have hprint : printAll (d :: ds) = d.before ++ printAll ({ d with before := [] } :: ds) := by
    have htext : d.text = d.before ++ text { d with before := [] } := by simp [text]
    rw [printAll, List.map_cons, htext, joinWith_append_cons]
    rfl
  obtain ⟨c, hc, hstarts⟩ := hname.starts
  obtain ⟨tail, htail⟩ := List.head?_eq_some_iff.1 hc
  have hhead : ∃ more, printAll ({ d with before := [] } :: ds) = c :: more := by
    rw [printAll, List.map_cons, text, htail]
    exact ⟨_, joinWith_cons_cons _ _ _ _⟩
  obtain ⟨more, hmore⟩ := hhead
  have htrim : trimLeft (printAll (d :: ds)) = c :: more := by
    rw [hprint, trimLeft_append_left h.before, hmore,
      trimLeft_cons (not_isBlank_of_startsName hstarts).1]
  rw [contents, htrim, if_neg (List.cons_ne_nil _ _), hmore]

lemma cut_printAll (hne : ds ≠ []) (h : ∀ d ∈ ds, d.IsReadable) (hname : ∀ d ∈ ds, IsName d.name)
    (hcomma : ∀ d ∈ ds, ∀ e, d.value = some e → ',' ∉ e) :
    cut (· == ',') (printAll ds) = ds.map text := by
  refine cut_joinWith (by simpa using hne) (List.forall_mem_map.2 fun d hd => ?_)
  have hnot : ',' ∉ d.name := fun hmem => by cases (hname d hd).continues _ hmem
  have hfront : ',' ∉ d.before ++ d.name ++ d.after := by
    have hblank : isBlank ',' = false := rfl
    simp [hnot, not_mem_blanks (h d hd).before hblank, not_mem_blanks (h d hd).after hblank]
  rw [text, List.mem_append, not_or]
  refine ⟨hfront, ?_⟩
  cases hvalue : d.value with
  | none => simp
  | some e => simpa using hcomma d hd e hvalue

/-- Without commas in them, all default values are read. -/
lemma filterMap_default?_contents (hne : ds ≠ []) (h : ∀ d ∈ ds, d.IsReadable)
    (hname : ∀ d ∈ ds, IsName d.name) (hcomma : ∀ d ∈ ds, ∀ e, d.value = some e → ',' ∉ e) :
    (cut (· == ',') (contents (printAll ds))).filterMap default? = ds.filterMap attached? := by
  have hread : ∀ ds : List Destructured, (∀ d ∈ ds, d.IsReadable) → (∀ d ∈ ds, IsName d.name) →
      (ds.map text).filterMap default? = ds.filterMap attached? := by
    intro ds h hname
    rw [List.filterMap_map]
    exact List.filterMap_congr fun d hd => default?_text (h d hd) (hname d hd)
  obtain ⟨d, ds, rfl⟩ := List.exists_cons_of_ne_nil hne
  simp only [List.forall_mem_cons] at h hname hcomma
  have h' : ∀ d' ∈ { d with before := [] } :: ds, d'.IsReadable :=
    List.forall_mem_cons.2 ⟨⟨List.forall_mem_nil _, h.1.after, h.1.value⟩, h.2⟩
  have hname' : ∀ d' ∈ { d with before := [] } :: ds, IsName d'.name :=
    List.forall_mem_cons.2 ⟨hname.1, hname.2⟩
  rw [contents_printAll h.1 hname.1, cut_printAll (List.cons_ne_nil _ _) h' hname'
    (List.forall_mem_cons.2 ⟨hcomma.1, hcomma.2⟩), hread _ h' hname']
  rfl

end Destructured

/-- What is not found in the front is found behind it. -/
lemma firstMatch_append_of_none {α : Type} {f : List Char → Option α} {front cs : List Char}
    (h : ∀ s, s <:+ front → s ≠ [] → f (s ++ cs) = none) :
    firstMatch f (front ++ cs) = firstMatch f cs := by
  induction front with
  | nil => rfl
  | cons c front ih =>
    have hhead : f (c :: (front ++ cs)) = none :=
      h (c :: front) List.suffix_rfl (List.cons_ne_nil c front)
    rw [List.cons_append, firstMatch, hhead, Option.none_or,
      ih fun s hs => h s (hs.trans (List.suffix_cons c front))]

/-- The default values of a source are those of its first parameter. -/
lemma defaults_of_first {front inner text back : List Char} (hparameter : IsParameter inner text)
    (hfirst : ∀ front' inner' text' back', front ++ text ++ back = front' ++ text' ++ back' →
      IsParameter inner' text' → front.length ≤ front'.length) :
    defaults (front ++ text ++ back) = (cut (· == ',') (contents inner)).filterMap default? := by
  have hread : parameter? (text ++ back) = some (contents inner) :=
    parameter?_eq_some_iff.2 ⟨inner, text, back, rfl, hparameter, rfl⟩
  have hnone : ∀ s, s <:+ front → s ≠ [] → parameter? (s ++ (text ++ back)) = none := by
    rintro s ⟨before, rfl⟩ hne
    rw [Option.eq_none_iff_forall_ne_some]
    intro names hnames
    obtain ⟨inner', text', back', heq, hparameter', -⟩ := parameter?_eq_some_iff.1 hnames
    have hlength := hfirst before inner' text' back' (by simp [heq]) hparameter'
    have hpos := List.length_pos_iff.2 hne
    rw [List.length_append] at hlength
    omega
  rw [defaults_eq, List.append_assoc, firstMatch_append_of_none hnone, firstMatch_eq hread]

/-- What is in a default value is in the part that it is read from. -/
lemma mem_of_mem_default? {part : List Char} {d : List Char × List Char} {c : Char}
    (h : default? part = some d) (hc : isBlank c = false) (hmem : c ∈ d.2) : c ∈ part := by
  unfold default? at h
  simp only at h
  split at h
  · cases h
  next sign value hdrop =>
    split at h
    · cases h
    · cases h
      have hvalue : c ∈ sign :: value := List.mem_cons_of_mem _ ((mem_trim_iff hc).1 hmem)
      rw [← hdrop] at hvalue
      exact (List.dropWhile_sublist _).subset hvalue

/-- No default value has a comma. -/
lemma not_mem_of_mem_defaults {source : List Char} {d : List Char × List Char}
    (h : d ∈ defaults source) : ',' ∉ d.2 := by
  intro hcomma
  unfold defaults at h
  split at h
  · cases h
  · obtain ⟨part, hpart, hd⟩ := List.mem_filterMap.1 h
    exact absurd (not_mem_of_mem_cut _ hpart (mem_of_mem_default? hd rfl hcomma)) (by decide)

/-! ## The properties of a source -/

/-- A default value is shown as its text, and as computed unless it is one literal; without one
nothing is shown. -/
def Shows (value : Option (List Char)) (shown : Option DefaultValue) : Prop :=
  match value with
  | none => shown = none
  | some e => ∃ v, shown = some v ∧ v.value = String.ofList (trim e) ∧
      (v.computed = false ↔ IsSingleLiteral (trim e))

variable {ds : List Destructured} {d : Destructured} {source name : String} {v : DefaultValue}

namespace Destructured

lemma lookup_attached?_of_not_mem {n : List Char} (h : ∀ d ∈ ds, d.name ≠ n) :
    (ds.filterMap attached?).lookup n = none := by
  rw [List.lookup_eq_none_iff]
  intro p hp
  obtain ⟨d, hd, hattached⟩ := List.mem_filterMap.1 hp
  obtain ⟨e, -, rfl⟩ := Option.map_eq_some_iff.1 hattached
  simpa using (h d hd).symm

/-- Where names are distinct, each has its own default value. -/
lemma lookup_attached? (hnames : (ds.map (·.name)).Nodup) (hd : d ∈ ds) :
    (ds.filterMap attached?).lookup d.name = d.value.map trim := by
  induction ds with
  | nil => cases hd
  | cons d' ds ih =>
    rw [List.map_cons, List.nodup_cons] at hnames
    have hother : ∀ d ∈ ds, d.name ≠ d'.name := fun d hmem heq =>
      hnames.1 (heq ▸ List.mem_map_of_mem hmem)
    rcases List.mem_cons.1 hd with rfl | hd
    · cases hvalue : d.value with
      | none =>
        have hskip : (d :: ds).filterMap attached? = ds.filterMap attached? :=
          List.filterMap_cons_none (by rw [attached?, hvalue, Option.map_none])
        rw [hskip, lookup_attached?_of_not_mem hother, Option.map_none]
      | some e =>
        have hfirst : d.attached? = some (d.name, trim e) := by
          rw [attached?, hvalue, Option.map_some]
        rw [List.filterMap_cons_some hfirst, lookup_cons_eq, if_pos rfl, Option.map_some]
    · cases hfirst : d'.attached? with
      | none => rw [List.filterMap_cons_none hfirst, ih hnames.2 hd]
      | some p =>
        obtain ⟨e, -, rfl⟩ := Option.map_eq_some_iff.1 hfirst
        rw [List.filterMap_cons_some hfirst, lookup_cons_eq, if_neg (hother d hd), ih hnames.2 hd]

/-- Where names are distinct, the last default value of each is its own one. -/
lemma lastDefault?_attached? (hnames : (ds.map (·.name)).Nodup) (hd : d ∈ ds)
    (hname : name.toList = d.name) :
    lastDefault? (ds.filterMap attached?) name = d.value.map fun e => defaultOf (trim e) := by
  have hreverse : (ds.reverse.map (·.name)).Nodup := by
    rwa [List.map_reverse, List.nodup_reverse]
  rw [lastDefault?, ← List.filterMap_reverse, hname,
    lookup_attached? hreverse (List.mem_reverse.2 hd), Option.map_map]
  rfl

/-- Other names have no default values. -/
lemma lastDefault?_eq_none (h : ∀ d ∈ ds, d.name ≠ name.toList) :
    lastDefault? (ds.filterMap attached?) name = none := by
  rw [lastDefault?, ← List.filterMap_reverse, Option.map_eq_none_iff]
  exact lookup_attached?_of_not_mem fun d hd => h d (List.mem_reverse.1 hd)

end Destructured

lemma exists_mem_defaults_of_attached? (h : attached? source name = some v) :
    ∃ value, (name.toList, value) ∈ defaults source.toList ∧ v = defaultOf value := by
  obtain ⟨value, hvalue, rfl⟩ := Option.map_eq_some_iff.1 h
  obtain ⟨later, earlier, heq, -⟩ := List.lookup_eq_some_iff.1 hvalue
  exact ⟨value, List.mem_reverse.1 (by simp [heq]), rfl⟩

/-- A default value that is read whole is shown just where it is not misjudged. -/
lemma shows_defaultOf_iff {e : List Char} (h : trim e ≠ []) :
    Shows (some e) (some (defaultOf (trim e))) ↔ ¬ IsMisjudged (trim e) := by
  rw [← isLiteral_agrees_iff (isTrimmed_trim h)]
  have hcomputed : (defaultOf (trim e)).computed = false ↔ isLiteral (trim e) = true := by
    simp [defaultOf]
  rw [← hcomputed]
  constructor
  · rintro ⟨v, hv, -, hliteral⟩
    cases hv
    exact hliteral
  · exact fun hliteral => ⟨_, rfl, rfl, hliteral⟩

/-- A default value that is shown is read whole. -/
lemma not_mem_of_shows {e : List Char} (h : Shows (some e) (attached? source name)) :
    attached? source name = some (defaultOf (trim e)) ∧ ',' ∉ e := by
  obtain ⟨v, hv, htext, -⟩ := h
  obtain ⟨value, hmem, rfl⟩ := exists_mem_defaults_of_attached? hv
  have hvalue : value = trim e := String.ofList_injective htext
  subst hvalue
  exact ⟨hv, fun hcomma => not_mem_of_mem_defaults hmem ((mem_trim_iff rfl).2 hcomma)⟩

/-- A parameter is the first one if there is no parenthesis in front of it. -/
lemma length_le_of_not_mem {front text back front' inner' text' back' : List Char}
    (h : '(' ∉ front) (heq : front ++ text ++ back = front' ++ text' ++ back')
    (hparameter : IsParameter inner' text') : front.length ≤ front'.length := by
  obtain ⟨-, -, before, after, given, -, -, -, rfl⟩ := hparameter
  rw [List.append_assoc, List.append_assoc, List.cons_append] at heq
  obtain ⟨more, rfl⟩ := exists_append_of_append_cons_eq heq.symm h
  simp

/-- The first parameter of a source destructures some of its properties. All properties get the
default values that are written there, and no others, just where no default value has a comma in it
or is misjudged. -/
theorem shows_default_iff {doc : PropsDoc} (hdoc : extract source = .ok doc)
    (hdistinct : (doc.props.map Prod.fst).Nodup) (hne : ds ≠ []) (h : ∀ d ∈ ds, d.IsReadable)
    (hnames : (ds.map (·.name)).Nodup)
    (hmember : ∀ d ∈ ds, ∃ p ∈ doc.props, p.1.toList = d.name)
    {front text back : List Char} (hsource : source.toList = front ++ text ++ back)
    (hparameter : IsParameter (Destructured.printAll ds) text)
    (hfirst : ∀ front' inner' text' back', front ++ text ++ back = front' ++ text' ++ back' →
      IsParameter inner' text' → front.length ≤ front'.length) :
    (∀ p ∈ doc.props, (∀ d ∈ ds, p.1.toList = d.name → Shows d.value p.2.default) ∧
        ((∀ d ∈ ds, p.1.toList ≠ d.name) → p.2.default = none)) ↔
      ∀ d ∈ ds, ∀ e, d.value = some e → ',' ∉ e ∧ ¬ IsMisjudged (trim e) := by
  have hdefault : ∀ p ∈ doc.props, p.2.default = attached? source p.1 := fun p hp =>
    default_of_get? hdoc ((lookup_eq_some_iff_mem hdistinct).2 hp)
  constructor
  · intro hshows d hd e hvalue
    obtain ⟨p, hp, hname⟩ := hmember d hd
    have hshown : Shows (some e) (attached? source p.1) := by
      rw [← hvalue, ← hdefault p hp]
      exact (hshows p hp).1 d hd hname
    obtain ⟨hwhole, hcomma⟩ := not_mem_of_shows hshown
    rw [hwhole] at hshown
    exact ⟨hcomma, (shows_defaultOf_iff ((h d hd).value e hvalue)).1 hshown⟩
  · intro hwhole
    have hname : ∀ d ∈ ds, IsName d.name := by
      intro d hd
      obtain ⟨p, hp, heq⟩ := hmember d hd
      exact heq ▸ isName_of_extract hdoc p hp
    have hread : defaults source.toList = ds.filterMap Destructured.attached? := by
      rw [hsource, defaults_of_first hparameter hfirst,
        Destructured.filterMap_default?_contents hne h hname fun d hd e hvalue =>
          (hwhole d hd e hvalue).1]
    intro p hp
    rw [hdefault p hp, attached?, hread]
    refine ⟨fun d hd heq => ?_, fun hother => ?_⟩
    · rw [Destructured.lastDefault?_attached? hnames hd heq]
      cases hvalue : d.value with
      | none => rfl
      | some e => exact (shows_defaultOf_iff ((h d hd).value e hvalue)).2 (hwhole d hd e hvalue).2
    · exact Destructured.lastDefault?_eq_none fun d hd => (hother d hd).symm

/-- What a component takes that destructures some of its properties. -/
def cardParameter (ds : List Destructured) : List Char :=
  "(\x7b".toList ++ (Destructured.printAll ds ++ "\x7d: CardProps)".toList)

/-- A required string `label`, and a required number `size`. -/
def cardMembers : List Documented :=
  [⟨"label", false, .primitive "string", []⟩, ⟨"size", false, .primitive "number", []⟩]

/-- What stands in front of the parameter: the interface with these members, and the start of the
component. -/
def cardFront : List Char :=
  print ⟨2, 2⟩ "Card".toList (cardMembers.map (·.toMember)) ++ "\nexport function Card".toList

/-- A source with this parameter. -/
def cardText (ds : List Destructured) : List Char :=
  cardFront ++ cardParameter ds ++ " \x7b\x7d\n".toList

lemma isParameter_cardParameter (hne : Destructured.printAll ds ≠ [])
    (h : '\x7d' ∉ Destructured.printAll ds) :
    IsParameter (Destructured.printAll ds) (cardParameter ds) := by
  have hgiven : IsGivenType ": CardProps".toList :=
    .inr ⟨[' '], "CardProps".toList, [], rfl, List.forall_mem_singleton.2 rfl, by decide,
      List.all_eq_true.1 (by decide), List.forall_mem_nil _⟩
  exact ⟨hne, h, [], [], _, List.forall_mem_nil _, List.forall_mem_nil _, hgiven, rfl⟩

/-- The name `label` with a default value, and the name `size` without one. -/
def cardNames (label : String) : List Destructured :=
  [⟨"label".toList, some label.toList, [' '], [' ']⟩, ⟨"size".toList, none, [' '], [' ']⟩]

lemma extract_cardText (ds : List Destructured) :
    extract (String.ofList (cardText ds)) = .ok ⟨String.ofList (description (cardText ds)),
      (defaults (cardText ds)).foldl setDefault (cardMembers.map (·.toProp))⟩ := by
  have hreadable : ∀ d ∈ cardMembers, d.IsReadable :=
    List.forall_mem_cons.2 ⟨⟨by decide, .primitive (by decide) (by decide), by simp⟩,
      List.forall_mem_singleton.2 ⟨by decide, .primitive (by decide) (by decide), by simp⟩⟩
  have hcomponent : ∀ c ∈ "Card".toList, isWord c = true := List.all_eq_true.1 (by decide)
  rw [cardText, cardFront, List.append_assoc, List.append_assoc]
  exact extract_print_eq ⟨2, 2⟩ hcomponent hreadable _

/-- The source is
```
interface CardProps {
  label: string;
  size: number;
}
export function Card({ label = 'a', size }: CardProps) {}
```
-/
theorem shows_default_cardNames :
    ∃ doc, extract (String.ofList (cardText (cardNames " 'a'"))) = .ok doc ∧
      ∀ p ∈ doc.props,
        (∀ d ∈ cardNames " 'a'", p.1.toList = d.name → Shows d.value p.2.default) ∧
          ((∀ d ∈ cardNames " 'a'", p.1.toList ≠ d.name) → p.2.default = none) := by
  have hextract := extract_cardText (cardNames " 'a'")
  refine ⟨_, hextract, ?_⟩
  have hblank : ∀ b ∈ [' '], isBlank b = true := List.forall_mem_singleton.2 rfl
  have hreadable : ∀ d ∈ cardNames " 'a'", d.IsReadable :=
    List.forall_mem_cons.2 ⟨⟨hblank, hblank, by decide⟩,
      List.forall_mem_singleton.2 ⟨hblank, hblank, by decide⟩⟩
  have hkeys : ((defaults (cardText (cardNames " 'a'"))).foldl setDefault
      (cardMembers.map (·.toProp))).map Prod.fst = ["label", "size"] :=
    map_foldl_setDefault (fun _ _ _ => rfl) _ _
  have hmember : ∀ d ∈ cardNames " 'a'", ∃ k ∈ ["label", "size"], k.toList = d.name := by decide
  have hfront : '(' ∉ cardFront := by decide
  refine (shows_default_iff hextract ?_ (List.cons_ne_nil _ _) hreadable (by decide) ?_
    String.toList_ofList (isParameter_cardParameter (by decide) (by decide))
    fun _ _ _ _ heq hparameter => length_le_of_not_mem hfront heq hparameter).2 ?_
  · rw [hkeys]
    decide
  · intro d hd
    obtain ⟨k, hk, hname⟩ := hmember d hd
    rw [← hkeys] at hk
    obtain ⟨p, hp, rfl⟩ := List.mem_map.1 hk
    exact ⟨p, hp, hname⟩
  · have hliteral : IsSingleLiteral "'a'".toList := .string ⟨'\'', by decide, ['a'], rfl, rfl⟩
    have hread : ¬ IsMisjudged "'a'".toList :=
      (isLiteral_agrees_iff (by decide)).1 (iff_of_true (by decide) hliteral)
    refine List.forall_mem_cons.2 ⟨fun e he => ?_, List.forall_mem_singleton.2 fun e he => ?_⟩
    · cases he
      exact ⟨by decide, hread⟩
    · cases he

/-- The source is
```
interface CardProps {
  label: string;
  size: number;
}
export function Card({ label = 'Hello, world', size }: CardProps) {}
```
-/
theorem extract_cardNames_comma :
    IsParameter (Destructured.printAll (cardNames " 'Hello, world'"))
        (cardParameter (cardNames " 'Hello, world'")) ∧
      (∃ doc, extract (String.ofList (cardText (cardNames " 'Hello, world'"))) = .ok doc ∧
        doc.get? "label" =
          some ⟨some (.primitive "string"), none, true, some ⟨"'Hello", true⟩, ""⟩) ∧
      ¬ Shows (some " 'Hello, world'".toList) (some ⟨"'Hello", true⟩) := by
  have hextract := extract_cardText (cardNames " 'Hello, world'")
  have hdefaults : defaults (cardText (cardNames " 'Hello, world'")) =
      [("label".toList, "'Hello".toList)] := by decide
  rw [hdefaults] at hextract
  refine ⟨isParameter_cardParameter (by decide) (by decide), ⟨_, hextract, rfl⟩, ?_⟩
  rintro ⟨v, hv, htext, -⟩
  cases hv
  exact absurd htext (by decide)

end Interface

end StyleGuide
