import RepoInspector.Settings.Choice

namespace RepoInspector
namespace Command

open Settings
open View

/-!
# Invocations

What a command line asks for: one command with its own argument, and the
options that every command takes.
-/

/-- The shells for which completions can be generated. -/
inductive Shell
  | bash
  | elvish
  | fish
  | powershell
  | zsh
deriving DecidableEq, Repr

namespace Shell

def all : List Shell := [.bash, .elvish, .fish, .powershell, .zsh]

def name : Shell -> String
  | .bash => "bash"
  | .elvish => "elvish"
  | .fish => "fish"
  | .powershell => "powershell"
  | .zsh => "zsh"

def ofName? (name : String) : Option Shell :=
  all.find? fun shell => shell.name = name

end Shell

/-- What to show of the configuration. -/
inductive ConfigPart
  | contents
  | paths
deriving DecidableEq, Repr

/-- What is to be done. -/
inductive Action
  /-- Show a repository; the payload comes from standard input without a file. -/
  | view (aspect : Aspect) (file : Option String)
  | config (part : ConfigPart)
  | completions (shell : Shell)
deriving DecidableEq, Repr

structure Invocation where
  action : Action
  format : Option Format
  colour : Option ColourChoice
  config : Option String
deriving DecidableEq, Repr

/-- Why a command line leads to no command. -/
inductive UsageFault
  /-- Help is asked for. -/
  | help
  /-- The version is asked for. -/
  | version
  /-- Nothing is given where a command is due. -/
  | nothingGiven
  | missingCommand
  | missingArgument
  | unknownCommand
  | unknownArgument
  | invalidValue
  /-- An option is given twice. -/
  | conflict
  /-- A value is attached to an option that takes none. -/
  | tooManyValues
deriving DecidableEq, Repr

/-- The exit code for a command line that leads to no command. -/
def UsageFault.exitCode : UsageFault -> Nat
  | .help | .version => 0
  | _ => 2

end Command
end RepoInspector
