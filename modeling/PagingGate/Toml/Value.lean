set_option autoImplicit false

namespace PagingGate.Toml

inductive Origin where
  /-- By its own header; the document itself counts as such. -/
  | header
  /-- By the header of a table inside it. -/
  | implied
  /-- By a dotted key. -/
  | dotted
  /-- Written in braces, and complete. -/
  | inline
  deriving DecidableEq, Repr

inductive Value where
  | text (text : String)
  | integer (value : Int)
  | float (value : Float)
  | flag (value : Bool)
  /-- A date, a time or both. Nothing here needs more of it. -/
  | dateTime
  | array (items : List Value)
  | table (origin : Origin) (members : List (String × Value))
  | tables (items : List (List (String × Value)))

abbrev Table := List (String × Value)

/-- A dotted key: the tables that lead to it, and its last part. -/
structure KeyPath where
  parents : List String
  key : String
  deriving DecidableEq, Repr

end PagingGate.Toml
