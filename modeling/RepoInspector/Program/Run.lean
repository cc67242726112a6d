import RepoInspector.Program.Failure
import RepoInspector.Program.Help

namespace RepoInspector
namespace Program

open Command
open Files
open Json
open Model
open Settings
open View

/-!
# Runs of the program

A run is a function of the words on the command line, of the surroundings and
of standard input.  A configuration comes first: without one no command is
carried out, and then the report has the format that the command line asks
for.
-/

/-- What a run leaves behind. -/
structure Outcome where
  exitCode : Nat
  /-- What is written to standard output. -/
  output : String
  /-- What is written to standard error. -/
  errors : String
deriving DecidableEq, Repr

/-- Whether a path stands for standard input. -/
def isInput (path : FilePath) : Bool :=
  path.same ⟨"-"⟩

/-- Where a command takes a payload from. -/
def originOf (file : Option String) : Origin :=
  match file with
  | none => .input
  | some text => if isInput ⟨text⟩ then .input else .file ⟨text⟩

/-- The bytes under a path, as far as they can be read. -/
def supplyOf (surroundings : Surroundings) (path : FilePath) : Except Failure Supply :=
  match surroundings.lookup path with
  | .nothing fault => .error (.opening path fault)
  | .directory => .ok ⟨[], some directoryReason⟩
  | .file bytes => .ok ⟨bytes, none⟩

/-- The repository of a payload. -/
def repositoryOf (surroundings : Surroundings) (input : Supply) (origin : Origin) :
    Except Failure DetailedRepository := do
  let supply ←
    match origin with
    | .input => .ok input
    | .file path => supplyOf surroundings path
  (DetailedRepository.ofStream supply).mapError (Failure.payload origin)

/-- A text as a line of its own. -/
def asLine (text : String) : String :=
  text ++ "\n"

/-- The effective configuration as a document. -/
def configValue (config : Config) : Value :=
  .object
    [(Choice.key Format, .text (Choice.name config.format)),
      (Choice.key ColourChoice, .text (Choice.name config.colour))]

/-- A setting as it is written in a settings file. -/
def settingLine (key value : String) : String :=
  asLine (key ++ " = \"" ++ value ++ "\"")

def showConfig (config : Config) : String :=
  match config.format with
  | .json => asLine ((configValue config).toText .pretty)
  | .text =>
      settingLine (Choice.key Format) (Choice.name config.format) ++
        settingLine (Choice.key ColourChoice) (Choice.name config.colour)

/-- Whether something stands under a path. -/
def present (surroundings : Surroundings) (path : FilePath) : Bool :=
  (surroundings.lookup path).isPresent

/-- A path of a settings file as a document. -/
def pathValue (surroundings : Surroundings) (path : FilePath) : Value :=
  .object [("exists", .boolean (present surroundings path)), ("path", .text path.text)]

/-- A path of a settings file on a line. -/
def pathLine (surroundings : Surroundings) (path : FilePath) : String :=
  asLine (path.text ++ (if present surroundings path then " (found)" else ""))

def showPaths (surroundings : Surroundings) (format : Format) (paths : List FilePath) : String :=
  match format with
  | .json => asLine ((Value.array (paths.map (pathValue surroundings))).toText .pretty)
  | .text => String.join (paths.map (pathLine surroundings))

/-- The path of the settings file that an invocation names. -/
def explicitPath (invocation : Invocation) : Option FilePath :=
  invocation.config.map FilePath.mk

/-- Carry out the command of an invocation under a configuration. -/
def perform (surroundings : Surroundings) (input : Supply) (invocation : Invocation)
    (config : Config) : Except Failure String :=
  match invocation.action with
  | .view aspect file => do
      let repository ← repositoryOf surroundings input (originOf file)
      let colour := config.colour.applies surroundings
      .ok (asLine (aspect.render config.format colour repository))
  | .config .contents => .ok (showConfig config)
  | .config .paths =>
      let paths := surroundings.settingsFiles (explicitPath invocation)
      .ok (showPaths surroundings config.format paths)
  | .completions shell => .ok (completions shell)

/-- The outcome of a command, with the format and the colour of its report. -/
def outcomeOf (format : Format) (colour : Bool) : Except Failure String -> Outcome
  | .ok output => ⟨0, output, ""⟩
  | .error failure => ⟨1, "", asLine (failure.render format colour)⟩

/-- Whether a variable that is a switch is on. -/
def isOn (value : String) : Bool :=
  value != "0"

/-- Whether reports are coloured where no configuration can be loaded. -/
def defaultColour (surroundings : Surroundings) : Bool :=
  if (surroundings.valueOf? "CLICOLOR_FORCE").any isOn then true
  else if (surroundings.valueOf? "NO_COLOR").isSome then false
  else (surroundings.valueOf? "CLICOLOR").all isOn && surroundings.terminal

/-- The outcome of an invocation. -/
def invoke (surroundings : Surroundings) (input : Supply) (invocation : Invocation) : Outcome :=
  match Config.load surroundings (explicitPath invocation) with
  | .error fault =>
      let format := invocation.format.getD Choice.default
      outcomeOf format (defaultColour surroundings) (.error (.settings fault))
  | .ok loaded =>
      let config := loaded.withChoices invocation.format invocation.colour
      outcomeOf config.format (config.colour.applies surroundings)
        (perform surroundings input invocation config)

/-- The outcome of a command line that leads to no command. -/
def refuse (fault : UsageFault) : Outcome :=
  match fault with
  | .help => ⟨0, help.text, ""⟩
  | .version => ⟨0, asLine (name ++ " " ++ version), ""⟩
  | .nothingGiven => ⟨fault.exitCode, "", help.text⟩
  | fault => ⟨fault.exitCode, "", (complaint fault).text⟩

/-- What the words of a command line ask for. -/
def invocationOf (surroundings : Surroundings) (words : List String) :
    Except UsageFault Invocation :=
  Invocation.ofLine (surroundings.valueOf? "GHREPO_CONFIG") words

/-- The outcome of a command line. -/
def run (surroundings : Surroundings) (input : Supply) (words : List String) : Outcome :=
  match invocationOf surroundings words with
  | .error fault => refuse fault
  | .ok invocation => invoke surroundings input invocation

/-! ## What a run looks at -/

/-- Whether standard input is read. -/
def readsInput (invocation : Invocation) : Bool :=
  match invocation.action with
  | .view _ file => originOf file = .input
  | _ => false

/-- The paths whose contents a run may depend on. -/
def relevantPaths (surroundings : Surroundings) (invocation : Invocation) : List FilePath :=
  let settings := surroundings.settingsFiles (explicitPath invocation)
  let payload :=
    match invocation.action with
    | .view _ (some file) => [FilePath.mk file]
    | _ => []
  settings ++ settings.flatMap (FilePath.fromAbove surroundings.directory) ++ payload

end Program
end RepoInspector
