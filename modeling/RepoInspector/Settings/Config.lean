import RepoInspector.Settings.Fault
import RepoInspector.Settings.Surroundings
import RepoInspector.Settings.Variable
import RepoInspector.Toml.Document

namespace RepoInspector
namespace Settings

open Files
open View

/-!
# Configurations

A configuration is read in layers: the settings files that are there, in
ascending order of what counts, and above them the environment.  What no layer
sets has its default.
-/

structure Config where
  format : Format
  colour : ColourChoice
deriving DecidableEq, Repr

namespace Config

/-- The configuration where nothing is set. -/
def default : Config := ⟨Choice.default, Choice.default⟩

/-- The choice of a name that is met under a key. -/
def ofName [Choice α] (source : Source) (key : List String) (name : String) :
    Except ValueFault α :=
  match Choice.ofName? name with
  | some choice => .ok choice
  | none => .error ⟨.unknownChoice name (Choice.names α), key, source⟩

/-- The choice that data makes.  A map whose first name is a choice would be
one with details; as no choice has any, what it holds is a fault.  A name
counts as met where what stands under it comes from. -/
def choose [Choice α] (datum : Datum) : Except ValueFault α :=
  let key := Choice.key α
  match datum with
  | .scalar source (.text name) => ofName source [key] name
  | .map _ ((name, detail) :: _) => do
      let _ : α ← ofName detail.source [key, name] name
      .error ⟨.wrongKind detail.found .nothing, [key, name], detail.source⟩
  | .map source [] => .error ⟨.wrongKind .map .anyChoice, [key], source⟩
  | datum => .error ⟨.wrongKind datum.found (.choice (Choice.kind α)), [key], datum.source⟩

/-- The choice that entries make under its key. -/
def chosen (α : Type) [Choice α] (entries : Entries) : Except ValueFault α :=
  match entries.find? fun entry => entry.1 = Choice.key α with
  | some entry => choose entry.2
  | none => .ok Choice.default

/-- The configuration that entries set.  Keys are looked at in their order. -/
def ofEntries (entries : Entries) : Except ValueFault Config := do
  let colour ← chosen ColourChoice entries
  let format ← chosen Format entries
  .ok ⟨format, colour⟩

/-- The entries of a settings file, as it is shown. -/
def fileEntries (shown : String) (bytes : List UInt8) : Except FileFault Entries :=
  match String.fromUTF8? bytes.toByteArray with
  | none => .error .notText
  | some text =>
      match Toml.ofText text with
      | .ok entries => .ok (Datum.layered (Datum.ofEntries (.file shown) entries))
      | .error place => .error (.grammar place)

/-- The layer of a path: empty unless it means a file. -/
def layer (surroundings : Surroundings) (path : FilePath) : Except Fault Entries :=
  if !(surroundings.lookup path).isPresent then .ok []
  else
    match surroundings.file? path with
    | none => .ok []
    | some (found, bytes) =>
        let shown := surroundings.directory.shown found
        (fileEntries shown bytes).mapError (Fault.file shown)

/-- The keys that can be set. -/
def keys : List String := [Choice.key ColourChoice, Choice.key Format]

/-- The key that a variable sets, in letters of either case and with blanks at
both ends or not. -/
def keyOf? (name : String) : Option String :=
  let name := String.ofList (Text.trim name.toList)
  keys.find? fun key => ("GHREPO_" ++ key).toUpper = name.toUpper

/-- The layer of the environment. -/
def environmentLayer (environment : List (String × String)) : Entries :=
  Datum.layered <| environment.filterMap fun entry =>
    (keyOf? entry.1).map fun key => (key, Datum.ofVariable entry.2)

/-- Lay layers over each other, the first at the bottom. -/
def stacked (layers : List Entries) : Entries :=
  layers.foldl (fun lower upper => Datum.coverEntries upper lower) []

/-- A file that is named explicitly has to exist. -/
def checkExplicit (surroundings : Surroundings) : Option FilePath -> Except Fault Unit
  | some path =>
      if (surroundings.lookup path).isPresent then .ok () else .error (.missing path.text)
  | none => .ok ()

/-- The configuration of surroundings. -/
def load (surroundings : Surroundings) (explicit : Option FilePath) : Except Fault Config := do
  checkExplicit surroundings explicit
  let layers ← (surroundings.settingsFiles explicit).mapM (layer surroundings)
  let environment := environmentLayer surroundings.environment
  (ofEntries (stacked (layers ++ [environment]))).mapError Fault.value

/-- The configuration with the choices of a command line. -/
def withChoices (config : Config) (format : Option Format) (colour : Option ColourChoice) :
    Config :=
  ⟨format.getD config.format, colour.getD config.colour⟩

end Config

/-- Whether a choice asks for colour. -/
def ColourChoice.applies (surroundings : Surroundings) : ColourChoice -> Bool
  | .always => true
  | .never => false
  | .auto => (surroundings.valueOf? "NO_COLOR").isNone && surroundings.terminal

end Settings
end RepoInspector
