import RepoInspector.Proofs.Program.Colour
import RepoInspector.Proofs.Program.Configuration

namespace RepoInspector
namespace Program

open Command
open Files
open Json
open Settings
open View

/-!
# What is written where

A command line either leads to no command, and is answered at once, or it leads
to an invocation.  An invocation comes to what it shows or to one failure, and
only then is anything written: what is shown to the output, or one report to
the error stream.  So nothing is half written when something fails, and the
format of the report is that of the last configuration there was.
-/

/-!
## What an invocation comes to
-/

/-- What an invocation shows, or why it fails. -/
def resultOf (surroundings : Surroundings) (input : Supply) (invocation : Invocation) :
    Except Failure String :=
  match configOf surroundings invocation with
  | .error fault => .error (.settings fault)
  | .ok config => perform surroundings input invocation config

section Formats

variable {surroundings : Surroundings} {invocation : Invocation}

theorem formatOf_of_config {config : Config}
    (isConfig : configOf surroundings invocation = .ok config) :
    formatOf surroundings invocation = config.format := by
  rcases configOf_eq_ok_iff.mp isConfig with ⟨loaded, loads, rfl⟩
  simp only [formatOf, loads, Config.withChoices]

theorem inked_of_config {config : Config}
    (isConfig : configOf surroundings invocation = .ok config) :
    inked surroundings invocation = config.colour.applies surroundings := by
  rcases configOf_eq_ok_iff.mp isConfig with ⟨loaded, loads, rfl⟩
  simp only [inked, loads, Config.withChoices]

theorem configOf_eq_error_iff {fault : Settings.Fault} :
    configOf surroundings invocation = .error fault ↔
      Config.load surroundings (explicitPath invocation) = .error fault := by
  unfold configOf
  cases Config.load surroundings (explicitPath invocation) with
  | error found => simp only [Except.map, Except.error.injEq]
  | ok loaded => exact ⟨nofun, nofun⟩

theorem formatOf_of_fault {fault : Settings.Fault}
    (fails : configOf surroundings invocation = .error fault) :
    formatOf surroundings invocation = invocation.format.getD Choice.default := by
  simp only [formatOf, configOf_eq_error_iff.mp fails]

theorem inked_of_fault {fault : Settings.Fault}
    (fails : configOf surroundings invocation = .error fault) :
    inked surroundings invocation = defaultColour surroundings := by
  simp only [inked, configOf_eq_error_iff.mp fails]

end Formats

/-- Whatever an invocation comes to is written in one format and one colour. -/
theorem invoke_eq_outcomeOf (surroundings : Surroundings) (input : Supply)
    (invocation : Invocation) :
    invoke surroundings input invocation =
      outcomeOf (formatOf surroundings invocation) (inked surroundings invocation)
        (resultOf surroundings input invocation) := by
  rw [invoke_configOf, resultOf]
  cases isConfig : configOf surroundings invocation with
  | error fault => rw [formatOf_of_fault isConfig, inked_of_fault isConfig]
  | ok config => rw [formatOf_of_config isConfig, inked_of_config isConfig]

/-- The report of what an invocation fails for, with its line feed. -/
def reportOf (surroundings : Surroundings) (invocation : Invocation) (failure : Failure) :
    String :=
  asLine (failure.render (formatOf surroundings invocation) (inked surroundings invocation))

/-- What a command line comes to: the answer to a request or to a misuse, what
is shown, or one report. -/
inductive Written (surroundings : Surroundings) (input : Supply) (words : List String) :
    Outcome -> Prop
  | answered {fault : UsageFault} (refused : invocationOf surroundings words = .error fault)
      (requested : fault = .help ∨ fault = .version) :
      Written surroundings input words ⟨0, (refuse fault).output, ""⟩
  | misused {fault : UsageFault} (refused : invocationOf surroundings words = .error fault)
      (unasked : fault ≠ .help ∧ fault ≠ .version) :
      Written surroundings input words ⟨2, "", (refuse fault).errors⟩
  | shown {invocation : Invocation} (asked : invocationOf surroundings words = .ok invocation)
      {text : String} (shows : resultOf surroundings input invocation = .ok text) :
      Written surroundings input words ⟨0, text, ""⟩
  | reported {invocation : Invocation} (asked : invocationOf surroundings words = .ok invocation)
      {failure : Failure} (fails : resultOf surroundings input invocation = .error failure) :
      Written surroundings input words ⟨1, "", reportOf surroundings invocation failure⟩

theorem run_written (surroundings : Surroundings) (input : Supply) (words : List String) :
    Written surroundings input words (run surroundings input words) := by
  unfold run
  cases asked : invocationOf surroundings words with
  | error fault =>
      cases fault with
      | help => exact .answered asked (.inl rfl)
      | version => exact .answered asked (.inr rfl)
      | _ => exact .misused asked ⟨nofun, nofun⟩
  | ok invocation =>
      simp only [invoke_eq_outcomeOf]
      cases isResult : resultOf surroundings input invocation with
      | error failure => exact .reported asked isResult
      | ok text => exact .shown asked isResult

section Written

variable {surroundings : Surroundings} {input : Supply} {words : List String} {outcome : Outcome}
  (written : Written surroundings input words outcome)

include written

theorem Written.codes : outcome.exitCode = 0 ∨ outcome.exitCode = 1 ∨ outcome.exitCode = 2 := by
  cases written with
  | answered | shown => exact .inl rfl
  | reported => exact .inr (.inl rfl)
  | misused => exact .inr (.inr rfl)

theorem Written.success (exits : outcome.exitCode = 0) : outcome.errors = "" := by
  cases written with
  | answered | shown => rfl
  | reported | misused => cases exits

theorem Written.failure (exits : outcome.exitCode = 1) :
    outcome.output = "" ∧ Exists fun invocation => Exists fun failure =>
      invocationOf surroundings words = .ok invocation ∧
        resultOf surroundings input invocation = .error failure ∧
        outcome.errors = reportOf surroundings invocation failure := by
  cases written with
  | answered | misused | shown => cases exits
  | reported asked fails => exact ⟨rfl, _, _, asked, fails, rfl⟩

theorem Written.usage_iff : outcome.exitCode = 2 ↔ Exists fun fault =>
    invocationOf surroundings words = .error fault ∧ fault ≠ .help ∧ fault ≠ .version := by
  constructor
  · intro exits
    cases written with
    | answered | shown | reported => cases exits
    | misused refused unasked => exact ⟨_, refused, unasked⟩
  · rintro ⟨fault, refused, notHelp, notVersion⟩
    cases written with
    | answered refusedToo requested =>
        cases refused.symm.trans refusedToo
        exact absurd requested (not_or.mpr ⟨notHelp, notVersion⟩)
    | misused => rfl
    | shown asked | reported asked => cases refused.symm.trans asked

theorem Written.usage_output (exits : outcome.exitCode = 2) : outcome.output = "" := by
  cases written with
  | answered | shown => cases exits
  | reported | misused => rfl

end Written

/-!
## Where no configuration can be loaded
-/

section Unloaded

variable {surroundings : Surroundings} {words : List String} {invocation : Invocation}
  {fault : Settings.Fault} (asked : invocationOf surroundings words = .ok invocation)
  (fails : configOf surroundings invocation = .error fault)

include asked fails

theorem run_of_fault (input : Supply) :
    run surroundings input words =
      ⟨1, "", asLine ((Failure.settings fault).render (invocation.format.getD Choice.default)
        (defaultColour surroundings))⟩ := by
  simp only [run, asked, invoke_configOf, fails, outcomeOf]

/-- A failure to load a configuration is reported alike for every command and
every payload. -/
theorem run_of_fault_congr {others : List String} {other : Invocation}
    (asksToo : invocationOf surroundings others = .ok other)
    (samePath : other.config = invocation.config) (sameFormat : other.format = invocation.format)
    (input otherInput : Supply) :
    run surroundings otherInput others = run surroundings input words := by
  have failsToo : configOf surroundings other = .error fault := by
    have loads := configOf_eq_error_iff.mp fails
    exact configOf_eq_error_iff.mpr (by rwa [explicitPath, samePath])
  rw [run_of_fault asked fails, run_of_fault asksToo failsToo, sameFormat]

end Unloaded

/-!
## Every run
-/

/-- How a run divides what it writes between its streams. -/
structure Streamed (surroundings : Surroundings) (input : Supply) (words : List String)
    (outcome : Outcome) : Prop where
  codes : outcome.exitCode = 0 ∨ outcome.exitCode = 1 ∨ outcome.exitCode = 2
  success : outcome.exitCode = 0 -> outcome.errors = ""
  /-- A failure leaves its report and nothing else. -/
  failure : outcome.exitCode = 1 -> outcome.output = "" ∧
    Exists fun invocation => Exists fun failure =>
      invocationOf surroundings words = .ok invocation ∧
        resultOf surroundings input invocation = .error failure ∧
        outcome.errors = reportOf surroundings invocation failure
  reported : forall invocation failure, invocationOf surroundings words = .ok invocation ->
    resultOf surroundings input invocation = .error failure ->
      outcome = ⟨1, "", reportOf surroundings invocation failure⟩
  usage_iff : outcome.exitCode = 2 ↔ Exists fun fault =>
    invocationOf surroundings words = .error fault ∧ fault ≠ .help ∧ fault ≠ .version
  usage_output : outcome.exitCode = 2 -> outcome.output = ""
  /-- With a configuration, the report of whatever fails has its format. -/
  format : forall invocation config, invocationOf surroundings words = .ok invocation ->
    configOf surroundings invocation = .ok config ->
      some (formatOf surroundings invocation) = invocation.format.or
        (surroundings.effective? Format (explicitPath invocation))
  /-- Without a configuration only the command line is left to ask. -/
  unloaded : forall invocation fault, invocationOf surroundings words = .ok invocation ->
    configOf surroundings invocation = .error fault ->
      outcome = ⟨1, "", asLine ((Failure.settings fault).render (invocation.format.getD .text)
        (defaultColour surroundings))⟩
  /-- What else the words ask for, and what the input holds, does not matter then. -/
  regardless : forall invocation fault, invocationOf surroundings words = .ok invocation ->
    configOf surroundings invocation = .error fault ->
      forall otherInput others other, invocationOf surroundings others = .ok other ->
        other.config = invocation.config -> other.format = invocation.format ->
          run surroundings otherInput others = outcome

theorem run_streamed (surroundings : Surroundings) (input : Supply) (words : List String) :
    Streamed surroundings input words (run surroundings input words) where
  codes := (run_written surroundings input words).codes
  success := (run_written surroundings input words).success
  failure := (run_written surroundings input words).failure
  reported := by
    intro invocation failure asked fails
    simp only [run, asked, invoke_eq_outcomeOf, fails, outcomeOf, reportOf]
  usage_iff := (run_written surroundings input words).usage_iff
  usage_output := (run_written surroundings input words).usage_output
  format := by
    intro invocation config _ isConfig
    rw [formatOf_of_config isConfig]
    exact (effective_of_config isConfig).1
  unloaded := by
    intro invocation fault asked fails
    exact run_of_fault asked fails input
  regardless := by
    intro invocation fault asked fails otherInput others other asksToo samePath sameFormat
    exact run_of_fault_congr asked fails asksToo samePath sameFormat input otherInput

end Program
end RepoInspector
