import RepoInspector.Program.Run
import RepoInspector.Proofs.View.Ink

namespace RepoInspector
namespace Program

open Command
open Files
open Json
open Model
open Settings
open View

/-!
# Colour

A run comes to something that is to be said, and only then is it printed, with
ink or without.  Once there is a configuration, the choice on the command line
decides about the ink, because nothing else counts more.  Without one that
choice is not looked at: only variables and the terminal decide.  So an
invocation whose choice differs from what these come to is not honoured
exactly when its configuration cannot be loaded and it fails in text.
-/

/-!
## What is said and how it is printed
-/

/-- The report of a failure, before it is printed. -/
def Failure.pieces (format : Format) (failure : Failure) : Line :=
  match format with
  | .json => [.plain (failure.toValue.toText .pretty)]
  | .text => failure.line

theorem Failure.render_eq (format : Format) (colour : Bool) (failure : Failure) :
    failure.render format colour = String.ofList (Line.chars colour (failure.pieces format)) := by
  cases format with
  | json => rw [render, pieces, Line.chars_plain, String.ofList_toList]
  | text => rfl

/-- A line with its line feed. -/
def ended (line : Line) : Line := line ++ [.plain "\n"]

theorem asLine_ofList (colour : Bool) (line : Line) :
    asLine (String.ofList (Line.chars colour line)) =
      String.ofList (Line.chars colour (ended line)) := by
  rw [ended, Line.chars_append, Line.chars_plain, String.ofList_append, String.ofList_toList]
  rfl

/-- A report on the error stream. -/
theorem Failure.asLine_render (format : Format) (colour : Bool) (failure : Failure) :
    asLine (failure.render format colour) =
      String.ofList (Line.chars colour (ended (failure.pieces format))) :=
  (congrArg asLine (failure.render_eq format colour)).trans (asLine_ofList colour _)

/-- What a command says under a configuration. -/
def spoken (surroundings : Surroundings) (input : Supply) (invocation : Invocation)
    (config : Config) : Except Failure Line :=
  match invocation.action with
  | .view aspect file => do
      let repository ← repositoryOf surroundings input (originOf file)
      .ok (ended (aspect.pieces config.format repository))
  | .config .contents => .ok [.plain (showConfig config)]
  | .config .paths =>
      let paths := surroundings.settingsFiles (explicitPath invocation)
      .ok [.plain (showPaths surroundings config.format paths)]
  | .completions shell => .ok [.plain (completions shell)]

/-- A command prints what it says. -/
theorem perform_eq (surroundings : Surroundings) (input : Supply) (invocation : Invocation)
    (config : Config) :
    perform surroundings input invocation config =
      (spoken surroundings input invocation config).map fun line =>
        String.ofList (Line.chars (config.colour.applies surroundings) line) := by
  have plainly : forall text : String, text =
      String.ofList (Line.chars (config.colour.applies surroundings) [.plain text]) := by
    intro text
    rw [Line.chars_plain, String.ofList_toList]
  rcases invocation with ⟨action, format, colour, path⟩
  match action with
  | .view aspect file =>
      simp only [perform, spoken, Aspect.render_eq, asLine_ofList]
      cases repositoryOf surroundings input (originOf file) <;> rfl
  | .config .contents => exact congrArg Except.ok (plainly _)
  | .config .paths => exact congrArg Except.ok (plainly _)
  | .completions shell => exact congrArg Except.ok (plainly _)

/-- What a run says, on the error stream if it fails. -/
def said (surroundings : Surroundings) (input : Supply) (invocation : Invocation) :
    Except Line Line :=
  match Config.load surroundings (explicitPath invocation) with
  | .error fault =>
      .error (ended ((Failure.settings fault).pieces (invocation.format.getD Choice.default)))
  | .ok loaded =>
      let config := loaded.withChoices invocation.format invocation.colour
      (spoken surroundings input invocation config).mapError fun failure =>
        ended (failure.pieces config.format)

/-- Whether a run uses ink. -/
def inked (surroundings : Surroundings) (invocation : Invocation) : Bool :=
  match Config.load surroundings (explicitPath invocation) with
  | .error _ => defaultColour surroundings
  | .ok loaded => (invocation.colour.getD loaded.colour).applies surroundings

/-- What is said, printed. -/
def printed (colour : Bool) : Except Line Line -> Outcome
  | .ok line => ⟨0, String.ofList (Line.chars colour line), ""⟩
  | .error line => ⟨1, "", String.ofList (Line.chars colour line)⟩

/-- A run is what it says, printed with ink or without. -/
theorem invoke_eq (surroundings : Surroundings) (input : Supply) (invocation : Invocation) :
    invoke surroundings input invocation =
      printed (inked surroundings invocation) (said surroundings input invocation) := by
  unfold invoke said inked
  cases Config.load surroundings (explicitPath invocation) with
  | error fault => exact congrArg (Outcome.mk 1 "") (Failure.asLine_render _ _ _)
  | ok loaded =>
      simp only [perform_eq]
      cases spoken surroundings input invocation
          (loaded.withChoices invocation.format invocation.colour) with
      | error failure => exact congrArg (Outcome.mk 1 "") (Failure.asLine_render _ _ _)
      | ok line => rfl

/-!
## The choice on the command line
-/

/-- What is said, with no ink in it. -/
def plainly : Except Line Line -> Outcome
  | .ok line => ⟨0, String.ofList line.text, ""⟩
  | .error line => ⟨1, "", String.ofList line.text⟩

theorem printed_plainly (result : Except Line Line) : printed false result = plainly result := by
  cases result <;> simp only [printed, plainly, Line.chars_plainly]

/-- The format of what a run shows or reports. -/
def formatOf (surroundings : Surroundings) (invocation : Invocation) : Format :=
  match Config.load surroundings (explicitPath invocation) with
  | .error _ => invocation.format.getD Choice.default
  | .ok loaded => invocation.format.getD loaded.format

/-- The word with which a report in text begins, in its ink. -/
def inkedError : List Char := Ink.boldRed.paint "Error".toList

/-- What a command line asks of colour is done: without colour nothing is
printed but what is said, and with colour a report in text begins in ink. -/
structure ColourHonoured (surroundings : Surroundings) (input : Supply) (words : List String) :
    Prop where
  never : forall invocation, invocationOf surroundings words = .ok invocation ->
    invocation.colour = some .never ->
      run surroundings input words = plainly (said surroundings input invocation)
  always : forall invocation, invocationOf surroundings words = .ok invocation ->
    invocation.colour = some .always -> (run surroundings input words).exitCode = 1 ->
      formatOf surroundings invocation = .text ->
        Exists fun rest => (run surroundings input words).errors = String.ofList (inkedError ++ rest)

theorem run_of_invocation {surroundings : Surroundings} {words : List String}
    {invocation : Invocation} (asked : invocationOf surroundings words = .ok invocation)
    (input : Supply) :
    run surroundings input words =
      printed (inked surroundings invocation) (said surroundings input invocation) := by
  rw [run, asked, ← invoke_eq]

/-- A run that fails says a report. -/
theorem said_error {surroundings : Surroundings} {input : Supply} {invocation : Invocation}
    {line : Line} (fails : said surroundings input invocation = .error line) :
    Exists fun failure : Failure =>
      line = ended (failure.pieces (formatOf surroundings invocation)) := by
  unfold said at fails
  unfold formatOf
  cases loads : Config.load surroundings (explicitPath invocation) with
  | error fault =>
      rw [loads] at fails
      cases fails
      exact ⟨.settings fault, rfl⟩
  | ok loaded =>
      rw [loads] at fails
      simp only at fails
      cases speaks : spoken surroundings input invocation
          (loaded.withChoices invocation.format invocation.colour) with
      | ok line =>
          rw [speaks] at fails
          cases fails
      | error failure =>
          rw [speaks] at fails
          cases fails
          exact ⟨failure, rfl⟩

/-- A report in text begins in ink just when it is printed with ink. -/
theorem report_inked_iff (failure : Failure) (colour : Bool) :
    (Exists fun rest => String.ofList (Line.chars colour (ended failure.line)) =
      String.ofList (inkedError ++ rest)) ↔ colour = true := by
  constructor
  · intro given
    rcases given with ⟨rest, same⟩
    cases colour with
    | true => rfl
    | false =>
        have heads : some 'E' = some Ink.escape :=
          congrArg List.head? (String.ofList_injective same)
        exact absurd heads (by decide)
  · rintro rfl
    exact ⟨_, rfl⟩

/-- Printed with ink, a report in text is not what it says. -/
theorem report_plainly_iff (failure : Failure) (colour : Bool) :
    printed colour (.error (ended failure.line)) = plainly (.error (ended failure.line)) ↔
      colour = false := by
  constructor
  · intro same
    cases colour with
    | false => rfl
    | true =>
        have said := String.ofList_injective (congrArg Outcome.errors same)
        have heads : some Ink.escape = some 'E' := congrArg List.head? said
        exact absurd heads (by decide)
  · rintro rfl
    exact printed_plainly _

/-- The choice of a configuration that is loaded is the one of the command line. -/
theorem inked_of_choice {surroundings : Surroundings} {invocation : Invocation} {config : Config}
    (loads : Config.load surroundings (explicitPath invocation) = .ok config)
    {choice : ColourChoice} (chosen : invocation.colour = some choice) :
    inked surroundings invocation = choice.applies surroundings := by
  simp only [inked, loads, chosen, Option.getD_some]

/-- Where no configuration can be loaded, nothing but the failure is said. -/
theorem said_of_unloaded {surroundings : Surroundings} {invocation : Invocation}
    {fault : Settings.Fault}
    (fails : Config.load surroundings (explicitPath invocation) = .error fault) (input : Supply) :
    said surroundings input invocation =
        .error (ended ((Failure.settings fault).pieces (formatOf surroundings invocation))) ∧
      inked surroundings invocation = defaultColour surroundings := by
  simp only [said, inked, formatOf, fails, and_self]

theorem formatOf_of_unloaded {surroundings : Surroundings} {invocation : Invocation}
    {fault : Settings.Fault}
    (fails : Config.load surroundings (explicitPath invocation) = .error fault) :
    formatOf surroundings invocation = .json ↔ invocation.format = some .json := by
  simp only [formatOf, fails]
  rcases invocation.format with _ | _ | _ <;> decide

/-- A document is printed alike with ink and without. -/
theorem printed_json (failure : Failure) (colour : Bool) :
    printed colour (.error (ended (failure.pieces .json))) =
      plainly (.error (ended (failure.pieces .json))) := rfl

/-- When the variables and the terminal come to what is chosen. -/
def DefaultAgrees (surroundings : Surroundings) : Option ColourChoice -> Prop
  | some .never => defaultColour surroundings = false
  | some .always => defaultColour surroundings = true
  | _ => True

section Invocations

variable {surroundings : Surroundings} {input : Supply} {words : List String}
  {invocation : Invocation} (asked : invocationOf surroundings words = .ok invocation)

include asked

/-- A failure to load a configuration shows whether the default agrees. -/
theorem defaultAgrees_of_honoured (honoured : ColourHonoured surroundings input words)
    {fault : Settings.Fault}
    (fails : Config.load surroundings (explicitPath invocation) = .error fault)
    (inText : formatOf surroundings invocation = .text) :
    DefaultAgrees surroundings invocation.colour := by
  have isRun := run_of_invocation asked input
  have ⟨isSaid, isInked⟩ := said_of_unloaded fails input
  rw [inText] at isSaid
  rw [isSaid, isInked] at isRun
  cases chosen : invocation.colour with
  | none => exact trivial
  | some choice =>
      cases choice with
      | auto => exact trivial
      | never =>
          have same := honoured.never invocation asked chosen
          rw [isRun, isSaid] at same
          exact (report_plainly_iff _ _).mp same
      | always =>
          have exits : (run surroundings input words).exitCode = 1 := by rw [isRun]; rfl
          have reported := honoured.always invocation asked chosen exits inText
          rw [isRun] at reported
          exact (report_inked_iff _ _).mp reported

variable (agrees : (Exists fun config =>
    Config.load surroundings (explicitPath invocation) = .ok config) ∨
  invocation.format = some .json ∨ DefaultAgrees surroundings invocation.colour)

include agrees

theorem never_honoured (chosen : invocation.colour = some .never) :
    run surroundings input words = plainly (said surroundings input invocation) := by
  rw [run_of_invocation asked]
  cases loads : Config.load surroundings (explicitPath invocation) with
  | ok config =>
      rw [inked_of_choice loads chosen]
      exact printed_plainly _
  | error fault =>
      have ⟨isSaid, isInked⟩ := said_of_unloaded loads input
      rw [loads] at agrees
      rcases agrees with ⟨_, impossible⟩ | json | agree
      · cases impossible
      · rw [isSaid, (formatOf_of_unloaded loads).mpr json]
        exact printed_json _ _
      · rw [chosen] at agree
        rw [isInked, show defaultColour surroundings = false from agree]
        exact printed_plainly _

theorem always_honoured (chosen : invocation.colour = some .always)
    (exits : (run surroundings input words).exitCode = 1)
    (inText : formatOf surroundings invocation = .text) :
    Exists fun rest =>
      (run surroundings input words).errors = String.ofList (inkedError ++ rest) := by
  have inInk : inked surroundings invocation = true := by
    cases loads : Config.load surroundings (explicitPath invocation) with
    | ok config => exact inked_of_choice loads chosen
    | error fault =>
        rw [loads] at agrees
        rcases agrees with ⟨_, impossible⟩ | json | agree
        · cases impossible
        · rw [(formatOf_of_unloaded loads).mpr json] at inText
          cases inText
        · rw [chosen] at agree
          exact (said_of_unloaded loads input).2.trans agree
  rw [run_of_invocation asked] at exits ⊢
  cases speaks : said surroundings input invocation with
  | ok line =>
      rw [speaks] at exits
      cases exits
  | error line =>
      rcases said_error speaks with ⟨failure, rfl⟩
      rw [inText]
      exact (report_inked_iff failure _).mpr inInk

end Invocations

/-- The colour that a command line asks for is honoured exactly if there is a
configuration, or the failure to load one is not reported in text, or it is
reported in that colour anyway. -/
theorem colourHonoured_iff (surroundings : Surroundings) (input : Supply) (words : List String) :
    ColourHonoured surroundings input words ↔
      forall invocation, invocationOf surroundings words = .ok invocation ->
        (Exists fun config => Config.load surroundings (explicitPath invocation) = .ok config) ∨
          invocation.format = some .json ∨ DefaultAgrees surroundings invocation.colour := by
  constructor
  · intro honoured invocation asked
    cases loads : Config.load surroundings (explicitPath invocation) with
    | ok config => exact .inl ⟨config, rfl⟩
    | error fault =>
        cases format : formatOf surroundings invocation with
        | json => exact .inr (.inl ((formatOf_of_unloaded loads).mp format))
        | text => exact .inr (.inr (defaultAgrees_of_honoured asked honoured loads format))
  · intro agrees
    exact
      { never := fun invocation asked => never_honoured asked (agrees invocation asked)
        always := fun invocation asked => always_honoured asked (agrees invocation asked) }

/-- Surroundings without any file, and with a variable that asks for colour. -/
def forcedColour : Surroundings where
  environment := [("CLICOLOR_FORCE", "1")]
  directory := ⟨"/"⟩
  accountHome := none
  terminal := false
  lookup := fun _ => .nothing .absent

/-- A file that is named on the command line and is missing is reported in
colour, although the same command line asks for none. -/
theorem colour_not_honoured : ¬ ColourHonoured forcedColour ⟨[], none⟩
    ["--color", "never", "--config", "none.toml", "show"] := by
  intro honoured
  have asked : invocationOf forcedColour
      ["--color", "never", "--config", "none.toml", "show"] =
        .ok ⟨.view .summary none, none, some .never, some "none.toml"⟩ := by rfl
  exact absurd (honoured.never _ asked rfl) (by decide +kernel)

end Program
end RepoInspector
