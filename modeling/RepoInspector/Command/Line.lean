import RepoInspector.Command.Invocation

namespace RepoInspector
namespace Command

open Settings
open View

/-!
# Command lines

A command line is read word by word.  Commands form levels: the program
itself, its commands, and the commands of `config`.  The general options may
stand on any level, and every level keeps what is given on it; when a word
names a command of the current level, the rest of the line belongs to that
command.  Only afterwards are the levels put together, where a word on the
line counts more than the environment and an inner level more than an outer.

A value that is given for an option is not looked at until the next option or
argument begins, or the level ends.  So of several faults the one that is met
first in this order is reported, and a fault of an inner level comes before a
value that is still waiting on the outer one.
-/

/-- The levels of commands. -/
inductive Level
  | program
  | view (aspect : Aspect)
  | config
  | configAction (action : ConfigPart)
  | completions
deriving DecidableEq, Repr

/-- What a word that names a command leads to. -/
inductive Branch
  | level (level : Level)
  | help
deriving DecidableEq, Repr

namespace Level

/-- The commands of a level, by name and alias. -/
def branches : Level -> List (String × Branch)
  | .program =>
      [("show", .level (.view .summary)), ("s", .level (.view .summary)),
        ("merge-methods", .level (.view .methods)), ("m", .level (.view .methods)),
        ("lineage", .level (.view .lineage)), ("l", .level (.view .lineage)),
        ("config", .level .config), ("cfg", .level .config),
        ("completions", .level .completions), ("help", .help)]
  | .config =>
      [("show", .level (.configAction .contents)), ("path", .level (.configAction .paths)),
        ("help", .help)]
  | _ => []

def branch? (level : Level) (word : String) : Option Branch :=
  (level.branches.find? fun branch => branch.1 = word).map Prod.snd

end Level

/-- The words after a request for help name a command whose help is wanted. -/
def helpFor : List String -> Level -> UsageFault
  | [], _ => .help
  | word :: words, level =>
      match level.branch? word with
      | some (.level level) => helpFor words level
      | some .help => if words.isEmpty then .help else .unknownCommand
      | none => .unknownCommand

/-- What can be given a value. -/
inductive Slot
  | format
  | colour
  | config
  | file
  | shell
deriving DecidableEq, Repr

/-- Where a value comes from; the later one counts more. -/
inductive Origin
  | environment
  | line
deriving DecidableEq, Repr

/-- What is given on one level. -/
structure Given where
  format : Option Format := none
  colour : Option ColourChoice := none
  config : Option (Origin × String) := none
  file : Option String := none
  shell : Option Shell := none
deriving DecidableEq, Repr

namespace Given

/-- Whether a slot is filled. -/
def has (given : Given) : Slot -> Bool
  | .format => given.format.isSome
  | .colour => given.colour.isSome
  | .config => given.config.isSome
  | .file => given.file.isSome
  | .shell => given.shell.isSome

/-- Whether nothing at all is given. -/
def isEmpty (given : Given) : Bool :=
  given = {}

/-- A path may not be empty. -/
def path (value : String) : Except UsageFault String :=
  if value.isEmpty then .error .invalidValue else .ok value

/-- Give a value to a slot. -/
def put (given : Given) (slot : Slot) (value : String) : Except UsageFault Given :=
  match slot with
  | .format =>
      match Choice.ofName? value with
      | some format => .ok { given with format := some format }
      | none => .error .invalidValue
  | .colour =>
      match Choice.ofName? value with
      | some colour => .ok { given with colour := some colour }
      | none => .error .invalidValue
  | .config => do
      let value ← path value
      .ok { given with config := some (.line, value) }
  | .file => do
      let value ← path value
      .ok { given with file := some value }
  | .shell =>
      match Shell.ofName? value with
      | some shell => .ok { given with shell := some shell }
      | none => .error .invalidValue

/-- Give a slot the value that was written for it, if one was. -/
def settle (given : Given) : Option (Slot × Option String) -> Except UsageFault Given
  | none => .ok given
  | some (_, none) => .error .invalidValue
  | some (slot, some value) =>
      if given.has slot then .error .conflict else given.put slot value

/-- Fill the place of a missing option from the environment. -/
def addEnvironment (given : Given) (config : Option String) : Except UsageFault Given :=
  match given.config, config with
  | none, some value => do
      let value ← path value
      .ok { given with config := some (.environment, value) }
  | _, _ => .ok given

end Given

/-- A level that is being read. -/
structure Scan where
  level : Level
  given : Given := {}
  /-- A slot whose value is not looked at yet, or not even written. -/
  pending : Option (Slot × Option String) := none
  /-- Whether the argument of the command is given. -/
  argumentTaken : Bool := false
  /-- Whether every further word is an argument. -/
  trailing : Bool := false

namespace Scan

/-- Whether the next word is the value of an option. -/
def awaiting (scan : Scan) : Option Slot :=
  match scan.pending with
  | some (slot, none) => some slot
  | _ => none

/-- Look at the pending value. -/
def settle (scan : Scan) : Except UsageFault Scan := do
  let given ← scan.given.settle scan.pending
  .ok { scan with given := given, pending := none }

/-- An option without a value so far. -/
def await (scan : Scan) (slot : Slot) : Except UsageFault Scan := do
  let scan ← scan.settle
  .ok { scan with pending := some (slot, none) }

/-- An option with its value attached. -/
def attach (scan : Scan) (slot : Slot) (value : String) : Except UsageFault Scan := do
  let scan ← scan.settle
  let given ← scan.given.settle (some (slot, some value))
  .ok { scan with given := given }

/-- An option, with its value attached or still to come. -/
def takeOption (scan : Scan) (slot : Slot) (value : Option String) : Except UsageFault Scan :=
  match value with
  | some value => scan.attach slot value
  | none => scan.await slot

/-- An option that ends the reading, once the value before it is good. -/
def stop (scan : Scan) (fault : UsageFault) (value : Option String) : Except UsageFault Scan :=
  if value.isSome then .error .tooManyValues
  else do
    let _ ← scan.settle
    .error fault

/-- An option by its long name. -/
def takeLong (scan : Scan) (name : String) (value : Option String) : Except UsageFault Scan :=
  if name = "format" then scan.takeOption .format value
  else if name = "color" then scan.takeOption .colour value
  else if name = "config" then scan.takeOption .config value
  else if name = "help" then scan.stop .help value
  else if name = "version" && scan.level = .program then scan.stop .version value
  else .error .unknownArgument

/-- The value that directly follows the letter of an option, if any.  An equals
sign between the two does not belong to it. -/
def attachedValue : List Char -> Option String
  | [] => none
  | c :: rest => some (String.ofList (if c = '=' then rest else c :: rest))

/-- An option by its letter, with what follows the letter. -/
def takeShort (scan : Scan) (letter : Char) (rest : List Char) : Except UsageFault Scan :=
  if letter = 'o' then scan.takeOption .format (attachedValue rest)
  else if letter = 'h' then scan.stop .help none
  else if letter = 'V' && scan.level = .program then scan.stop .version none
  else .error .unknownArgument

/-- The fault of a word that is not an argument of its level. -/
def stray (scan : Scan) (word : String) : UsageFault :=
  if scan.level.branches.isEmpty then .unknownArgument
  else if scan.trailing && (scan.level.branch? word).isSome then .unknownArgument
  else .unknownCommand

/-- What the argument of a level is. -/
def argument : Level -> Option Slot
  | .view _ => some .file
  | .completions => some .shell
  | _ => none

/-- A word that is neither an option nor the value of one. -/
def takeArgument (scan : Scan) (word : String) : Except UsageFault Scan :=
  match argument scan.level, scan.argumentTaken with
  | some slot, false => do
      let scan ← scan.settle
      .ok { scan with pending := some (slot, some word), argumentTaken := true }
  | _, _ => .error (scan.stray word)

/-- Split at the first equals sign. -/
def splitValue : List Char -> List Char × Option String
  | [] => ([], none)
  | c :: rest =>
      if c = '=' then ([], some (String.ofList rest))
      else
        let (name, value) := splitValue rest
        (c :: name, value)

/-- A word that names no command. -/
def takeWord (scan : Scan) (word : String) : Except UsageFault Scan :=
  if scan.trailing then scan.takeArgument word
  else
    match word.toList with
    | ['-', '-'] => .ok { scan with trailing := true }
    | '-' :: '-' :: rest =>
        let (name, value) := splitValue rest
        scan.takeLong (String.ofList name) value
    | '-' :: letter :: rest => scan.takeShort letter rest
    | _ =>
        match scan.awaiting with
        | some slot => .ok { scan with pending := some (slot, some word) }
        | none => scan.takeArgument word

/-- The command that a word names where it stands. -/
def branch? (scan : Scan) (word : String) : Option Branch :=
  if scan.trailing || scan.awaiting.isSome then none else scan.level.branch? word

/-- What a level that ends asks to be done, given what is on it. -/
def action (level : Level) (given : Given) : Except UsageFault Action :=
  match level with
  | .program | .config => .error (if given.isEmpty then .nothingGiven else .missingCommand)
  | .view aspect => .ok (.view aspect given.file)
  | .configAction action => .ok (.config action)
  | .completions =>
      match given.shell with
      | some shell => .ok (.completions shell)
      | none => .error .missingArgument

/-- What counts of two values of the configuration option. -/
def strongerConfig (outer inner : Option (Origin × String)) : Option (Origin × String) :=
  match outer, inner with
  | some (.line, value), some (.environment, _) => some (.line, value)
  | some value, none => some value
  | _, inner => inner

/-- What two levels give together. -/
def merge (outer inner : Given) : Given :=
  { inner with
    format := inner.format.or outer.format
    colour := inner.colour.or outer.colour
    config := strongerConfig outer.config inner.config }

/-- End a level, with the action and the options of the level inside it if
there is one. -/
def finish (environment : Option String) (scan : Scan) (inside : Option (Action × Given)) :
    Except UsageFault (Action × Given) := do
  let scan ← scan.settle
  let given ← scan.given.addEnvironment environment
  match inside with
  | some (action, inner) => .ok (action, merge given inner)
  | none => do
      let action ← action scan.level given
      .ok (action, given)

/-- Read the rest of a line. -/
def run (environment : Option String) :
    List String -> Scan -> Except UsageFault (Action × Given)
  | [], scan => scan.finish environment none
  | word :: words, scan =>
      match scan.branch? word with
      | some .help => .error (helpFor words scan.level)
      | some (.level level) => do
          let inside ← run environment words { level := level }
          scan.finish environment (some inside)
      | none => do
          let scan ← scan.takeWord word
          run environment words scan

end Scan

/-- What the words of a command line ask for.  `environment` is the path of a
configuration file that the environment names. -/
def Invocation.ofLine (environment : Option String) (words : List String) :
    Except UsageFault Invocation := do
  let (action, given) ← Scan.run environment words { level := .program }
  .ok
    { action
      format := given.format
      colour := given.colour
      config := given.config.map Prod.snd }

end Command
end RepoInspector
