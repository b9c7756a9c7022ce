/-! # JSON values

A value keeps its numbers as they are written. A string whose escapes leave a
surrogate without its partner denotes no text; it is still well formed, so it is
kept as an absent text. -/

namespace RegionOutline.Json

inductive Value where
  | null
  | bool (value : Bool)
  /-- A number as written. -/
  | number (numeral : List Char)
  | string (text : Option String)
  | array (items : List Value)
  /-- Members in the order written, repeated keys included. -/
  | object (members : List (Option String × Value))

end RegionOutline.Json
