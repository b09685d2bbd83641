/-!
# JSON values

The value that a compiled style guide is handed on as. The fields of an object keep their order.

## Main definitions

* `Json`: values. No part of a style guide writes a number that is no integer, so such a number is
  kept in the form in which it is written.
* `Json.field?`: the value of a field.
* `Json.ofFields`: the object with given fields, where a name that occurs again keeps its first
  place and takes the last value.
* `Json.merged`: a value in which no object names a field twice.
-/

namespace StyleGuide

/-- A JSON value. -/
inductive Json where
  | null
  | bool (b : Bool)
  | int (n : Int)
  /-- A number that is no integer, as it is written. -/
  | decimal (text : String)
  | string (s : String)
  | array (items : List Json)
  | object (fields : List (String × Json))
deriving Inhabited

namespace Json

/-- Set a field: a new one goes to the end, a known one keeps its place. -/
def setField (name : String) (value : Json) : List (String × Json) → List (String × Json)
  | [] => [(name, value)]
  | (k, v) :: rest => if k = name then (k, value) :: rest else (k, v) :: setField name value rest

/-- The fields with repeated names taken together. -/
def mergeFields (fields : List (String × Json)) : List (String × Json) :=
  fields.foldl (fun done f => setField f.1 f.2 done) []

/-- The object with the given fields, repeated names taken together. -/
def ofFields (fields : List (String × Json)) : Json := object (mergeFields fields)

/-- The value of the first field of that name. -/
def field? : Json → String → Option Json
  | object fields, name => fields.lookup name
  | _, _ => none

/-- The text, if the value is one. -/
def string? : Json → Option String
  | string s => some s
  | _ => none

/-- The fields, if the value is an object. -/
def fields? : Json → Option (List (String × Json))
  | object fields => some fields
  | _ => none

/-- The text, or `null` where there is none. -/
def ofString? (s : Option String) : Json := s.elim null string

mutual

/-- The value with repeated names taken together in every object. -/
def merged : Json → Json
  | array items => array (mergedItems items)
  | object fields => object (mergeFields (mergedFields fields))
  | scalar => scalar

/-- `merged` on every item. -/
def mergedItems : List Json → List Json
  | [] => []
  | v :: rest => merged v :: mergedItems rest

/-- `merged` on the value of every field. -/
def mergedFields : List (String × Json) → List (String × Json)
  | [] => []
  | (k, v) :: rest => (k, merged v) :: mergedFields rest

end

end Json

end StyleGuide
