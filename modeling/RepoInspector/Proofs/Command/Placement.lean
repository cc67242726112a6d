import RepoInspector.Program.Run
import RepoInspector.Proofs.Command.Spellings

namespace RepoInspector
namespace Command

open Settings
open View

/-!
# Places of options

The general options of a command may stand before, between and after its
words.  Reading keeps them on the level where they stand, so the place decides
which level holds an option, and putting the levels together undoes just that:
what a line asks for depends on the words of the command and on the options
alone.

The environment is looked at on every level that has no path of its own.  A
path on the line counts more wherever it stands, but a path that the
environment leaves empty is refused on the first level that looks at it, and
some level always does.
-/

/-- The general options of a line, each given at most once. -/
structure GeneralOptions where
  format : Option Format := none
  colour : Option ColourChoice := none
  config : Option String := none
deriving DecidableEq, Repr

namespace GeneralOptions

/-- Whether an option is not given. -/
def Lacks (general : GeneralOptions) : Setting -> Prop
  | .format _ => general.format = none
  | .colour _ => general.colour = none
  | .config _ => general.config = none

def set (general : GeneralOptions) : Setting -> GeneralOptions
  | .format chosen => { general with format := some chosen }
  | .colour chosen => { general with colour := some chosen }
  | .config path => { general with config := some path }

/-- What a command asks for with these options.  The environment may name a
configuration file for lines without one, but not by an empty path. -/
def invocation (general : GeneralOptions) (environment : Option String) (action : Action) :
    Except UsageFault Invocation :=
  if environment = some "" then .error .invalidValue
  else .ok ⟨action, general.format, general.colour, general.config.or environment⟩

end GeneralOptions

/-- Lines with the words of a command in their order and options anywhere
among them. -/
inductive Placed : List String -> GeneralOptions -> List String -> Prop
  | done : Placed [] {} []
  | word {words line : List String} {general : GeneralOptions} (word : String)
      (placed : Placed words general line) : Placed (word :: words) general (word :: line)
  | setting {words line spelling : List String} {general : GeneralOptions} {setting : Setting}
      (free : general.Lacks setting) (spelled : setting.Spelled spelling)
      (placed : Placed words general line) : Placed words (general.set setting) (spelling ++ line)

/-- The name of the command that shows an aspect, and its alias. -/
def viewNames : Aspect -> List String
  | .summary => ["show", "s"]
  | .methods => ["merge-methods", "m"]
  | .lineage => ["lineage", "l"]

def partName : ConfigPart -> String
  | .contents => "show"
  | .paths => "path"

/-- The words of a command. -/
inductive CommandWords : Action -> List String -> Prop
  | view {aspect : Aspect} {name : String} (named : name ∈ viewNames aspect) :
      CommandWords (.view aspect none) [name]
  | viewFile {aspect : Aspect} {name file : String} (named : name ∈ viewNames aspect)
      (filled : file ≠ "") (plain : Plain file) :
      CommandWords (.view aspect (some file)) [name, file]
  | config {name : String} (named : name ∈ ["config", "cfg"]) (part : ConfigPart) :
      CommandWords (.config part) [name, partName part]
  | completions (shell : Shell) : CommandWords (.completions shell) ["completions", shell.name]

/-! ## Options of two levels -/

namespace GeneralOptions

/-- The options of an inner level beside those of an outer one. -/
def or (inner outer : GeneralOptions) : GeneralOptions where
  format := inner.format.or outer.format
  colour := inner.colour.or outer.colour
  config := inner.config.or outer.config

/-- No option is given on both of two levels. -/
def Apart (own general : GeneralOptions) : Prop :=
  forall setting, own.Lacks setting ∨ general.Lacks setting

/-- Options of a line with the argument of its command. -/
def beside (general : GeneralOptions) (file : Option String) (shell : Option Shell) : Given where
  format := general.format
  colour := general.colour
  config := general.config.map (Origin.line, ·)
  file
  shell

variable {general own : GeneralOptions} {setting : Setting} {file : Option String}
  {shell : Option Shell}

theorem has_beside (free : own.Lacks setting) :
    (own.beside file shell).has setting.slot = false := by
  cases setting with
  | format | colour | config =>
      simp only [Lacks] at free
      simp only [Setting.slot, Given.has, beside, free]
      rfl

theorem addTo_beside :
    setting.addTo (own.beside file shell) = (own.set setting).beside file shell := by
  cases setting <;> rfl

theorem or_none (general : GeneralOptions) : general.or {} = general := by
  simp only [or, Option.or_none]

/-- An option that is read passes from the rest of the line to the level. -/
theorem or_set (free : general.Lacks setting) :
    (general.set setting).or own = general.or (own.set setting) := by
  cases setting <;> simp_all [Lacks, or, set]

theorem Apart.lacks (apart : own.Apart (general.set setting)) : own.Lacks setting := by
  refine (apart setting).resolve_right ?_
  cases setting <;> simp [Lacks, set]

theorem Apart.set (apart : own.Apart (general.set setting)) (free : general.Lacks setting) :
    (own.set setting).Apart general := by
  intro other
  have either := apart other
  cases setting <;> cases other <;> simp_all [Lacks, GeneralOptions.set]

theorem apart_empty (general : GeneralOptions) : Apart {} general := by
  intro setting
  cases setting <;> exact .inl rfl

end GeneralOptions

/-! ## The environment -/

namespace Scan

/-- The path that counts of one on the line and one in the environment, with
where it comes from. -/
def sourced (environment lined : Option String) : Option (Origin × String) :=
  (lined.map (Origin.line, ·)).or (environment.map (Origin.environment, ·))

theorem sourced_path (environment lined : Option String) :
    (sourced environment lined).map Prod.snd = lined.or environment := by
  cases lined <;> cases environment <;> rfl

/-- Of two levels that look at one environment the paths on the line count
before it. -/
theorem strongerConfig_sourced (environment outer inner : Option String) :
    strongerConfig (sourced environment outer) (sourced environment inner) =
      sourced environment (inner.or outer) := by
  cases outer <;> cases inner <;> cases environment <;> rfl

variable {environment : Option String} {general own : GeneralOptions} {file : Option String}
  {shell : Option Shell}

theorem addEnvironment_beside (allowed : environment = some "" -> general.config ≠ none) :
    (general.beside file shell).addEnvironment environment =
      .ok { general.beside file shell with config := sourced environment general.config } := by
  unfold Given.addEnvironment GeneralOptions.beside
  cases isConfig : general.config with
  | some path => rfl
  | none =>
      cases environment with
      | none => rfl
      | some value =>
          have notEmpty : value.isEmpty = false := by
            simpa using fun isEmpty => allowed (congrArg some isEmpty) isConfig
          simp only [Option.map_none, Given.path, notEmpty]
          rfl

theorem addEnvironment_empty (unnamed : general.config = none) :
    (general.beside file shell).addEnvironment (some "") = .error .invalidValue := by
  unfold Given.addEnvironment GeneralOptions.beside
  rw [unnamed]
  rfl

/-! ## Levels -/

/-- What reading a level from its beginning gives: the command with all
options of this level and those inside it.  An empty path in the environment
is passed over only on a level that has no other inside it. -/
inductive Closes (environment : Option String) (level : Level) (action : Action)
    (general : GeneralOptions) : Except UsageFault (Action × Given) -> Prop
  | found {given : Given} (format : given.format = general.format)
      (colour : given.colour = general.colour)
      (config : given.config = sourced environment general.config)
      (allowed : environment = some "" -> level.branches = [] ∧ general.config ≠ none) :
      Closes environment level action general (.ok (action, given))
  | refused (empty : environment = some "") :
      Closes environment level action general (.error .invalidValue)

variable {scan : Scan} {level : Level} {action : Action}

/-- A level ends with a look at the environment. -/
theorem finish_eq {given : Given} (ready : scan.Ready given) (environment : Option String)
    (inside : Option (Action × Given)) :
    scan.finish environment inside = (given.addEnvironment environment).bind fun filled =>
      match inside with
      | some (action, inner) => .ok (action, merge filled inner)
      | none => (Scan.action scan.level filled).bind fun action => .ok (action, filled) := by
  rw [finish, ready.settle_eq]
  rfl

/-- A command without commands of its own ends. -/
theorem closes_leaf (isLevel : scan.level = level) (ready : scan.Ready (general.beside file shell))
    (leaf : level.branches = [])
    (asks : forall given : Given, given.file = file -> given.shell = shell ->
      Scan.action level given = .ok action) :
    Closes environment level action general (scan.finish environment none) := by
  rw [finish_eq ready, isLevel]
  by_cases empty : environment = some "" ∧ general.config = none
  · rcases empty with ⟨rfl, unnamed⟩
    rw [addEnvironment_empty unnamed]
    exact .refused rfl
  · have allowed : environment = some "" -> general.config ≠ none :=
      fun isEmpty unnamed => empty ⟨isEmpty, unnamed⟩
    rw [addEnvironment_beside allowed, Except.bind]
    simp only [asks { general.beside file shell with
      config := sourced environment general.config } rfl rfl]
    exact .found rfl rfl rfl fun isEmpty => ⟨leaf, allowed isEmpty⟩

/-- A level ends after the command inside it. -/
theorem closes_branch {inner : Level} {read : Except UsageFault (Action × Given)}
    (ready : scan.Ready (own.beside none none)) (apart : own.Apart general)
    (inside : Closes environment inner action general read) :
    Closes environment level action (general.or own)
      (read.bind fun inside => scan.finish environment (some inside)) := by
  cases inside with
  | refused empty => exact .refused empty
  | @found given format colour config allowed =>
      rw [Except.bind, finish_eq ready]
      by_cases empty : environment = some ""
      · have unnamed : own.config = none :=
          (apart (.config "")).resolve_right (allowed empty).2
        subst empty
        rw [addEnvironment_empty unnamed]
        exact .refused rfl
      · rw [addEnvironment_beside fun isEmpty => absurd isEmpty empty]
        refine .found ?_ ?_ ?_ fun isEmpty => absurd isEmpty empty
        · exact congrArg (Option.or · own.format) format
        · exact congrArg (Option.or · own.colour) colour
        · exact (congrArg (strongerConfig _) config).trans (strongerConfig_sourced _ _ _)

/-! ## Lines -/

/-- Options alone lead to the end of the level they stand on. -/
theorem run_options (environment : Option String) {words line : List String}
    (placed : Placed words general line) (alone : words = [])
    (ready : scan.Ready (own.beside file shell)) (apart : own.Apart general) :
    Exists fun after : Scan =>
      run environment line scan = after.finish environment none ∧
        after.Ready ((general.or own).beside file shell) ∧ after.level = scan.level := by
  induction placed generalizing scan own with
  | done => exact ⟨scan, rfl, ready, rfl⟩
  | word => cases alone
  | @setting words line spelling general setting free spelled _ inductionHypothesis =>
      rcases run_spelled spelled ready (GeneralOptions.has_beside apart.lacks) environment line with
        ⟨next, step, nextReady, nextLevel, _⟩
      rw [GeneralOptions.addTo_beside] at nextReady
      rcases inductionHypothesis alone nextReady (apart.set free) with
        ⟨after, reads, afterReady, afterLevel⟩
      rw [← GeneralOptions.or_set free] at afterReady
      exact ⟨after, step.trans reads, afterReady, afterLevel.trans nextLevel⟩

/-- With its argument a command without commands of its own has all its words.
The argument waits to be looked at until the next option or the end. -/
theorem closes_argument {line : List String} {slot : Slot} {word : String}
    (placed : Placed [] general line) (isLevel : scan.level = level)
    (ready : scan.Ready (own.beside none none)) (untaken : scan.argumentTaken = false)
    (apart : own.Apart general) (leaf : level.branches = [])
    (isArgument : argument level = some slot) (plain : Plain word)
    (settled : (own.beside none none).settle (some (slot, some word)) =
      .ok (own.beside file shell))
    (asks : forall given : Given, given.file = file -> given.shell = shell ->
      Scan.action level given = .ok action) :
    Closes environment level action (general.or own) (run environment (word :: line) scan) := by
  let next : Scan :=
    { scan with given := own.beside none none, pending := some (slot, some word),
                argumentTaken := true }
  have noCommand : scan.branch? word = none := by
    rw [branch?, Level.branch?, isLevel, leaf]
    exact ite_self _
  have step : scan.takeWord word = .ok next := by
    rw [takeWord_plain ready.reading plain, ready.awaiting_none]
    simp only [takeArgument, isLevel, isArgument, untaken]
    rw [ready.settle_eq]
    rfl
  have nextReady : next.Ready (own.beside file shell) := ⟨ready.reading, settled⟩
  rcases run_options environment placed rfl nextReady apart with
    ⟨after, reads, afterReady, afterLevel⟩
  rw [run_word noCommand, step, Except.bind, reads]
  exact closes_leaf (afterLevel.trans isLevel) afterReady leaf asks

end Scan

theorem Shell.plain (shell : Shell) : Plain shell.name := by
  cases shell <;> decide

/-- Words of a command from a level on. -/
inductive Leads : Level -> List String -> Action -> Prop
  | view (aspect : Aspect) : Leads (.view aspect) [] (.view aspect none)
  | file (aspect : Aspect) {file : String} (filled : file ≠ "") (plain : Plain file) :
      Leads (.view aspect) [file] (.view aspect (some file))
  | part (part : ConfigPart) : Leads (.configAction part) [] (.config part)
  | shell (shell : Shell) : Leads .completions [shell.name] (.completions shell)
  | command {level inner : Level} {word : String} {words : List String} {action : Action}
      (named : level.branch? word = some (.level inner)) (leads : Leads inner words action) :
      Leads level (word :: words) action

theorem CommandWords.leads {action : Action} {words : List String}
    (isCommand : CommandWords action words) : Leads .program words action := by
  have viewNamed : forall aspect name, name ∈ viewNames aspect ->
      Level.program.branch? name = some (.level (.view aspect)) := by
    intro aspect
    cases aspect <;> decide
  cases isCommand with
  | view named => exact .command (viewNamed _ _ named) (.view _)
  | viewFile named filled plain => exact .command (viewNamed _ _ named) (.file _ filled plain)
  | @config name named part =>
      have configNamed : Level.program.branch? name = some (.level .config) := by
        revert name
        decide
      have partNamed : Level.config.branch? (partName part) =
          some (.level (.configAction part)) := by
        cases part <;> decide
      exact .command configNamed (.command partNamed (.part part))
  | completions shell => exact .command (by decide) (.shell shell)

namespace Scan

theorem settle_file {file : String} (filled : file ≠ "") (own : GeneralOptions) :
    (own.beside none none).settle (some (.file, some file)) =
      .ok (own.beside (some file) none) := by
  have notEmpty : file.isEmpty = false := by simpa using filled
  simp only [Given.settle, Given.put, Given.path, notEmpty]
  rfl

theorem settle_shell (shell : Shell) (own : GeneralOptions) :
    (own.beside none none).settle (some (.shell, some shell.name)) =
      .ok (own.beside none (some shell)) := by
  cases shell <;> rfl

/-- By induction on the line: an option passes to the level that is read, an
argument ends the words, and a command word begins the level inside. -/
theorem run_placed (environment : Option String) {words line : List String}
    {general own : GeneralOptions} {level : Level} {action : Action} {scan : Scan}
    (placed : Placed words general line)
    (leads : Leads level words action) (isLevel : scan.level = level)
    (ready : scan.Ready (own.beside none none)) (untaken : scan.argumentTaken = false)
    (apart : own.Apart general) :
    Closes environment level action (general.or own) (run environment line scan) := by
  induction placed generalizing level scan own with
  | done =>
      cases leads with
      | view | part =>
          refine closes_leaf isLevel ready rfl fun given unfiled _ => ?_
          simp only [Scan.action, unfiled]
  | @setting words line spelling general setting free spelled _ inductionHypothesis =>
      rcases run_spelled spelled ready (GeneralOptions.has_beside apart.lacks) environment line with
        ⟨next, step, nextReady, nextLevel, nextTaken⟩
      rw [GeneralOptions.addTo_beside] at nextReady
      rw [GeneralOptions.or_set free, step]
      exact inductionHypothesis leads (nextLevel.trans isLevel) nextReady
        (nextTaken.trans untaken) (apart.set free)
  | @word words line general word placed inductionHypothesis =>
      cases leads with
      | file _ filled plain =>
          refine closes_argument placed isLevel ready untaken apart rfl rfl plain
            (settle_file filled own) fun given isFile _ => ?_
          rw [Scan.action, isFile]
      | shell shell =>
          refine closes_argument placed isLevel ready untaken apart rfl rfl shell.plain
            (settle_shell shell own) fun given _ isShell => ?_
          simp only [Scan.action, isShell]
      | @command _ inner _ _ _ named leads =>
          have entered : scan.branch? word = some (.level inner) := by
            rw [branch?, ready.reading, ready.awaiting_none, isLevel]
            exact named
          have fresh : Ready { level := inner } (({} : GeneralOptions).beside none none) :=
            ⟨rfl, rfl⟩
          have inside := inductionHypothesis leads rfl fresh rfl general.apart_empty
          rw [GeneralOptions.or_none] at inside
          rw [run, entered]
          exact closes_branch ready apart inside

end Scan

/-- What a line asks for depends on the words of its command, on its options
and on the environment, but neither on where the options stand nor on how
they are written. -/
theorem ofLine_placed {words line : List String} {general : GeneralOptions} {action : Action}
    (isCommand : CommandWords action words) (placed : Placed words general line)
    (environment : Option String) :
    Invocation.ofLine environment line = general.invocation environment action := by
  have fresh : Scan.Ready { level := .program } (({} : GeneralOptions).beside none none) :=
    ⟨rfl, rfl⟩
  have closes :=
    Scan.run_placed environment placed isCommand.leads rfl fresh rfl general.apart_empty
  rw [GeneralOptions.or_none] at closes
  generalize isRead : Scan.run environment line { level := .program } = read at closes
  rw [Invocation.ofLine, isRead, GeneralOptions.invocation]
  cases closes with
  | refused empty =>
      rw [if_pos empty]
      rfl
  | @found given format colour config allowed =>
      have notEmpty : environment ≠ some "" := fun isEmpty => nomatch (allowed isEmpty).1
      rw [if_neg notEmpty]
      change Except.ok (Invocation.mk _ _ _ _) = _
      rw [format, colour, config, Scan.sourced_path]

end Command

namespace Program

open Command
open Settings

/-- Every line with the words of one command and the same options asks for the
same: the configuration is the path on the line wherever it stands, and
without one the path that the variable names. -/
theorem invocationOf_placed {words line : List String} {general : GeneralOptions}
    {action : Action} (isCommand : CommandWords action words) (placed : Placed words general line)
    (surroundings : Surroundings) :
    invocationOf surroundings line =
      general.invocation (surroundings.valueOf? "GHREPO_CONFIG") action :=
  ofLine_placed isCommand placed _

/-- Surroundings that name a configuration file. -/
def namingConfig : Surroundings where
  environment := [("GHREPO_CONFIG", "named.toml")]
  directory := ⟨"/"⟩
  accountHome := none
  terminal := false
  lookup _ := .nothing .absent

theorem invocationOf_everywhere :
    CommandWords (.config .paths) ["cfg", "path"] ∧
      Placed ["cfg", "path"] ⟨some .json, some .never, some "own.toml"⟩
        ["-ojson", "cfg", "--config=own.toml", "path", "--color", "never"] ∧
      invocationOf namingConfig
          ["-ojson", "cfg", "--config=own.toml", "path", "--color", "never"] =
        .ok ⟨.config .paths, some .json, some .never, some "own.toml"⟩ := by
  have isCommand : CommandWords (.config .paths) ["cfg", "path"] := .config (by decide) .paths
  have uncoloured : ({} : GeneralOptions).Lacks (.colour .never) := rfl
  have unconfigured : ({ colour := some .never } : GeneralOptions).Lacks (.config "own.toml") := rfl
  have unformatted : ({ colour := some .never, config := some "own.toml" } :
      GeneralOptions).Lacks (.format .json) := rfl
  have placed : Placed ["cfg", "path"] ⟨some .json, some .never, some "own.toml"⟩
      ["-ojson", "cfg", "--config=own.toml", "path", "--color", "never"] := by
    refine .setting unformatted (.letterJoined .json) (.word "cfg" ?_)
    refine .setting unconfigured (.longJoined (.config "own.toml") (by decide)) (.word "path" ?_)
    exact .setting uncoloured (.long (.colour .never) (by decide) (by decide)) .done
  exact ⟨isCommand, placed, invocationOf_placed isCommand placed namingConfig⟩

end Program
end RepoInspector
