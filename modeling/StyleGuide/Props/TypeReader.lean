import StyleGuide.Props.Doc
import StyleGuide.Props.Literal
import StyleGuide.Props.Member

/-!
# Reading types

`PropType.read` gives the type that a text stands for. A text with an arrow outside of brackets is a
function; one with several parts between `|` is an enumeration when all of them are literals, and a
union otherwise; brackets around all of it are looked into. What is left is a name. Types that it
holds are read from shorter texts, so the reading ends.
-/

namespace StyleGuide.PropType

/-- The names that are written in more than one way, or shortened. -/
def ofName (name : String) : PropType :=
  if name = "boolean" then primitive "bool"
  else if name = "ReactNode" ∨ name = "React.ReactNode" ∨ name = "ReactElement" ∨
      name = "React.ReactElement" ∨ name = "JSX.Element" then
    primitive "node"
  else primitive name

/-- The parts of a type between `|` outside of brackets, blank ones left out. -/
def alternatives (cs : List Char) : List (List Char) :=
  ((Bracket.split (· == '|') cs).map trim).filter (· ≠ [])

/-- What stands before `[]`. -/
def beforeBrackets? (cs : List Char) : Option (List Char) :=
  if "[]".toList.isSuffixOf cs then some (cs.take (cs.length - 2)) else none

/-- What stands between `Array<` and `>`. -/
def insideArray? (cs : List Char) : Option (List Char) :=
  if "Array<".toList.isPrefixOf cs ∧ (cs.drop 6).getLast? = some '>' then
    some (cs.drop 6).dropLast
  else none

/-- The descriptor of a member whose type is known. -/
def ofMember (m : Member) (type : PropType) : String × PropDescriptor :=
  (String.ofList m.name,
    { type := some type
      flowType := none
      required := !m.isOptional
      default := none
      description := String.ofList (joinWith '\n' m.comments) })

theorem alternatives_length {cs p : List Char} (h : p ∈ alternatives cs)
    (hn : 2 ≤ (alternatives cs).length) : p.length < cs.length := by
  have hlen : (alternatives cs).length ≤ (Bracket.split (· == '|') cs).length := by
    unfold alternatives
    exact Nat.le_trans (List.length_filter_le _ _) (Nat.le_of_eq (List.length_map _))
  obtain ⟨t, ht, rfl⟩ := List.mem_map.1 (List.mem_filter.1 h).1
  have h₁ := length_add_length_le_weight ht
  rw [Bracket.weight_split] at h₁
  have h₂ := trim_length t
  omega

theorem alternatives_head_length (cs : List Char) :
    ((alternatives cs).headD cs).length ≤ cs.length := by
  cases hp : alternatives cs with
  | nil => exact Nat.le_refl _
  | cons p ps =>
    have hm : p ∈ alternatives cs := hp ▸ List.mem_cons_self
    obtain ⟨t, ht, rfl⟩ := List.mem_map.1 (List.mem_filter.1 hm).1
    have h₁ := length_add_length_le_weight ht
    rw [Bracket.weight_split] at h₁
    have h₂ := trim_length t
    have h₃ : 0 < (Bracket.split (· == '|') cs).length := List.length_pos_of_mem ht
    simp only [List.headD_cons]
    omega

theorem beforeBrackets?_length {cs inner : List Char} (h : beforeBrackets? cs = some inner) :
    inner.length < cs.length := by
  unfold beforeBrackets? at h
  split at h
  next hs =>
    cases h
    have := (List.isSuffixOf_iff_suffix.1 hs).length_le
    simp only [List.length_take] at *
    have h2 : "[]".toList.length = 2 := rfl
    omega
  · cases h

theorem insideArray?_length {cs inner : List Char} (h : insideArray? cs = some inner) :
    inner.length < cs.length := by
  unfold insideArray? at h
  split at h
  next hs =>
    cases h
    have := (List.isPrefixOf_iff_prefix.1 hs.1).length_le
    simp only [List.length_dropLast, List.length_drop] at *
    have h6 : "Array<".toList.length = 6 := rfl
    omega
  · cases h

/-- The type that a text stands for. -/
def read (raw : List Char) : PropType :=
  let text := trim raw
  if Bracket.hasArrow text = true ∨ text = "Function".toList then primitive "func"
  else if _hn : 2 ≤ (alternatives text).length then
    if (alternatives text).all isLiteral then
      enumOf ((alternatives text).map fun p => ⟨String.ofList p, false⟩)
    else unionOf ((alternatives text).attach.map fun p => read p.1)
  else
    let single := (alternatives text).headD text
    match _h₁ : Bracket.enclosed? '(' ')' single with
    | some inner => read inner
    | none =>
      match _h₂ : beforeBrackets? single with
      | some inner => arrayOf (read inner)
      | none =>
        match _h₃ : insideArray? single with
        | some inner => arrayOf (read inner)
        | none =>
          match _h₄ : Bracket.enclosed? '\x7b' '\x7d' single with
          | some inner =>
            match _h₅ : Member.readAll inner with
            | .ok ms => shape (ms.attach.map fun m => ofMember m.1 (read m.1.type))
            | .error _ => primitive "object"
          | none => ofName (String.ofList single)
termination_by raw.length
decreasing_by
  · exact Nat.lt_of_lt_of_le (alternatives_length p.2 _hn) (trim_length raw)
  all_goals
    have hs : single.length ≤ raw.length :=
      Nat.le_trans (alternatives_head_length _) (trim_length raw)
  · exact Nat.lt_of_lt_of_le (Bracket.enclosed?_length _h₁) hs
  · exact Nat.lt_of_lt_of_le (beforeBrackets?_length _h₂) hs
  · exact Nat.lt_of_lt_of_le (insideArray?_length _h₃) hs
  · exact Nat.lt_trans (Member.length_type_of_mem_readAll _h₅ m.2)
      (Nat.lt_of_lt_of_le (Bracket.enclosed?_length _h₄) hs)

end StyleGuide.PropType
