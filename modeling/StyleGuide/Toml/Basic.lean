/-!
# TOML values

What a configuration file holds. The values of numbers and dates are checked when they are read and
not kept, as nothing in the configuration of a style guide is one.
-/

namespace StyleGuide

/-- The value of a key. -/
inductive Toml where
  | string (s : String)
  | bool (b : Bool)
  /-- An integer or a float. -/
  | number
  /-- A date, a time, or both. -/
  | moment
  | array (items : List Toml)
  | table (fields : List (String × Toml))
deriving Inhabited

namespace Toml

/-- The value of a key, where the table has one. -/
def field? (name : String) (fields : List (String × Toml)) : Option Toml := fields.lookup name

end Toml

end StyleGuide
