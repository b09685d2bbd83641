import StyleGuide.Json.Basic

/-!
# Documentation of properties

What is known about the properties of a component. Every type is written as an object with a `name`,
and with a `value` where the name alone does not say everything.

## Main definitions

* `PropType`, `PropDescriptor` and `PropsDoc`: types, properties and whole documents.
* `PropType.name`, `PropType.display`: the tag of a type, and its short form for tables.
* `PropsDoc.toJson`: the document as a value.
-/

namespace StyleGuide

/-- A default value as it is written in the source. -/
structure DefaultValue where
  value : String
  /-- Whether it is an expression and not a literal. -/
  computed : Bool
deriving DecidableEq, Inhabited

/-- A literal of an enumeration. -/
structure EnumValue where
  value : String
  computed : Bool
deriving DecidableEq, Inhabited

/-- What is known about one property, over the types it may have. -/
structure Descriptor (τ : Type) where
  type : Option τ
  flowType : Option τ
  required : Bool
  default : Option DefaultValue
  description : String
deriving Inhabited

/-- The type of a property. -/
inductive PropType where
  /-- A type that is known by its name alone. -/
  | primitive (name : String)
  | arrayOf (item : PropType)
  | instanceOf (className : String)
  | enumOf (values : List EnumValue)
  /-- An enumeration given by an expression that is not evaluated. -/
  | enumText (raw : String)
  | unionOf (members : List PropType)
  /-- A union given by an expression that is not evaluated. -/
  | unionText (raw : String)
  | shape (fields : List (String × Descriptor PropType))
deriving Inhabited

/-- What is known about one property. -/
abbrev PropDescriptor := Descriptor PropType

/-- What is known about the properties of one component, in the order of their declaration. -/
structure PropsDoc where
  description : String
  props : List (String × PropDescriptor)
deriving Inhabited

namespace PropType

/-- The tag of a type. -/
def name : PropType → String
  | primitive name => name
  | arrayOf _ => "arrayOf"
  | instanceOf _ => "instanceOf"
  | enumOf _ | enumText _ => "enum"
  | unionOf _ | unionText _ => "union"
  | shape _ => "shape"

/-- The short form of a type for tables. -/
def display : PropType → String
  | arrayOf item => item.name ++ "[]"
  | instanceOf className => className
  | other => other.name

end PropType

/-- The type that is shown: a flow annotation goes before the type itself. -/
def Descriptor.effectiveType {τ : Type} (d : Descriptor τ) : Option τ := d.flowType.or d.type

/-- The first property of that name. -/
def PropsDoc.get? (d : PropsDoc) (name : String) : Option PropDescriptor := d.props.lookup name

/-! ## Documents as values -/

/-- A default value as an object. -/
def DefaultValue.toJson (v : DefaultValue) : Json :=
  .object [("value", .string v.value), ("computed", .bool v.computed)]

/-- A literal as an object. -/
def EnumValue.toJson (v : EnumValue) : Json :=
  .object [("value", .string v.value), ("computed", .bool v.computed)]

/-- A field that is left out where there is no value. -/
def optionalField {α : Type} (name : String) (f : α → Json) (v : Option α) :
    List (String × Json) :=
  match v with
  | none => []
  | some a => [(name, f a)]

/-- The fields of a descriptor whose types are values already. -/
def Descriptor.fields (d : Descriptor Json) : List (String × Json) :=
  optionalField "type" id d.type ++ optionalField "flowType" id d.flowType ++
    [("required", .bool d.required)] ++
    optionalField "defaultValue" DefaultValue.toJson d.default ++
    [("description", .string d.description)]

mutual

/-- A type as an object. -/
def PropType.toJson : PropType → Json
  | .primitive name => .object [("name", .string name)]
  | .arrayOf item => .object [("name", .string "arrayOf"), ("value", item.toJson)]
  | .instanceOf className =>
    .object [("name", .string "instanceOf"), ("value", .string className)]
  | .enumOf values =>
    .object [("name", .string "enum"), ("value", .array (values.map (·.toJson)))]
  | .enumText raw => .object [("name", .string "enum"), ("value", .string raw)]
  | .unionOf members => .object [("name", .string "union"), ("value", .array (typesJson members))]
  | .unionText raw => .object [("name", .string "union"), ("value", .string raw)]
  | .shape fields => .object [("name", .string "shape"), ("value", .object (fieldsJson fields))]

/-- Types in order. -/
def typesJson : List PropType → List Json
  | [] => []
  | t :: rest => t.toJson :: typesJson rest

/-- A type that may be absent. -/
def typeJson? : Option PropType → Option Json
  | none => none
  | some t => some t.toJson

/-- A descriptor as an object. -/
def descriptorJson : Descriptor PropType → Json
  | ⟨type, flowType, required, default, description⟩ =>
    .object (Descriptor.fields
      ⟨typeJson? type, typeJson? flowType, required, default, description⟩)

/-- Named descriptors as the fields of an object; names that occur again stay. -/
def fieldsJson : List (String × Descriptor PropType) → List (String × Json)
  | [] => []
  | (k, d) :: rest => (k, descriptorJson d) :: fieldsJson rest

end

/-- The document as an object; names that occur again stay. -/
def PropsDoc.toJson (d : PropsDoc) : Json :=
  .object [("description", .string d.description), ("props", .object (fieldsJson d.props))]

end StyleGuide
