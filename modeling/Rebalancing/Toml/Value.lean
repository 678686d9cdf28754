/-! # TOML values -/

namespace Rebalancing

/-- A TOML value. Numbers with a fraction and points in time keep their text: settings have none, so
they are only told apart from what is wanted. -/
inductive Toml where
  | string (text : String)
  | integer (n : Int)
  | float (text : String)
  | boolean (value : Bool)
  | moment (text : String)
  | array (items : List Toml)
  | table (entries : List (String × Toml))

end Rebalancing
