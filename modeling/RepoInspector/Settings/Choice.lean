import RepoInspector.View.Aspect

namespace RepoInspector
namespace Settings

open View

/-!
# Choices

The two things that can be set: the format of what is shown and whether it is
coloured.  Each has a fixed list of named choices, the default first.
-/

/-- When to colour what is shown. -/
inductive ColourChoice
  /-- When it is shown on a terminal. -/
  | auto
  | always
  | never
deriving DecidableEq, Repr

/-- A type whose values are chosen by name. -/
class Choice (α : Type) where
  /-- What the choice is about, as a key in settings. -/
  key : String
  /-- What a choice is called where something else is found. -/
  kind : String
  /-- Every choice with its name, the default first. -/
  choices : List (String × α)
  /-- What a choice is when none is made. -/
  default : α
  /-- The name of a choice. -/
  name : α -> String

instance : Choice Format where
  key := "format"
  kind := "OutputFormat"
  choices := [("text", .text), ("json", .json)]
  default := .text
  name
    | .text => "text"
    | .json => "json"

instance : Choice ColourChoice where
  key := "color"
  kind := "ColorChoice"
  choices := [("auto", .auto), ("always", .always), ("never", .never)]
  default := .auto
  name
    | .auto => "auto"
    | .always => "always"
    | .never => "never"

/-- The choice of a name. -/
def Choice.ofName? [Choice α] (name : String) : Option α :=
  (Choice.choices.find? fun choice : String × α => choice.1 = name).map Prod.snd

/-- The names of all choices. -/
def Choice.names (α : Type) [Choice α] : List String :=
  (Choice.choices (α := α)).map Prod.fst

end Settings
end RepoInspector
