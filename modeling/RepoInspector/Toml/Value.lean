namespace RepoInspector
namespace Toml

/-!
# Values of settings files

Of a date or a time only the kind is kept: nothing that is set takes one.
-/

inductive Value
  | text (s : String)
  | integer (n : Int)
  | float (x : Float)
  | boolean (b : Bool)
  /-- A date, a time of day, or both. -/
  | moment
  | array (items : List Value)
  | table (entries : List (String × Value))

end Toml
end RepoInspector
