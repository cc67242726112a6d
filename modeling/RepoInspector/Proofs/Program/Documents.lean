import RepoInspector.Proofs.Json.Documents
import RepoInspector.Proofs.Model.RoundTrip
import RepoInspector.Proofs.Program.Streams

namespace RepoInspector
namespace Program

open Command
open Files
open Json
open Model
open Record
open Settings
open View

/-!
# Documents of runs

What a run shows in JSON is a document whatever strings its payload, its paths
or its failure hold.  For each kind of data there is a way to read it in the
value of a document that does not look at how it was written, and it comes to
the data that was shown.
-/

/-!
## Data in values
-/

def lineageIn? (value : Value) : Option Lineage := do
  let repository ← (value.member? "repository").bind Value.text?
  let isFork ← (value.member? "fork").bind Value.boolean?
  let parent ← (value.member? "parent").bind Value.optionalText?
  let source ← (value.member? "source").bind Value.optionalText?
  some ⟨repository, isFork, parent, source⟩

def methodIn? (value : Value) : Option MergeMethod := value.text?.bind MergeMethod.ofName?

def choiceIn? (α : Type) [Choice α] (value : Value) : Option α :=
  (value.member? (Choice.key α)).bind fun value => value.text?.bind Choice.ofName?

def configIn? (value : Value) : Option Config := do
  let format ← choiceIn? Format value
  let colour ← choiceIn? ColourChoice value
  some ⟨format, colour⟩

/-- A path as it is shown, and whether it is there. -/
def pathIn? (value : Value) : Option (String × Bool) := do
  let path ← (value.member? "path").bind Value.text?
  let present ← (value.member? "exists").bind Value.boolean?
  some (path, present)

/-- What a report in a document says. -/
structure Report where
  isError : Bool
  code : String
  message : String
deriving DecidableEq, Repr

def reportIn? (value : Value) : Option Report := do
  let isError ← (value.member? "error").bind Value.boolean?
  let code ← (value.member? "code").bind Value.text?
  let message ← (value.member? "message").bind Value.text?
  some ⟨isError, code, message⟩

theorem lineageIn?_toValue (lineage : Lineage) : lineageIn? lineage.toValue = some lineage := by
  rcases lineage with ⟨repository, isFork, _ | parent, _ | source⟩ <;> rfl

theorem methodIn?_toValue (method : MergeMethod) : methodIn? method.toValue = some method := by
  cases method <;> rfl

theorem configIn?_configValue (config : Config) : configIn? (configValue config) = some config := by
  rcases config with ⟨_ | _, _ | _ | _⟩ <;> rfl

theorem pathIn?_pathValue (surroundings : Surroundings) (path : FilePath) :
    pathIn? (pathValue surroundings path) = some (path.text, present surroundings path) := rfl

theorem reportIn?_toValue (failure : Failure) :
    reportIn? failure.toValue = some ⟨true, "error", failure.message⟩ := rfl

/-!
## Documents that are written
-/

theorem tidy_lineage (lineage : Lineage) : lineage.toValue.Tidy 1 := by
  have name : forall name : Option String, (Lineage.nameValue name).Tidy 0 := by
    rintro (_ | name)
    · exact .null
    · exact .text
  refine .object (show ["repository", "fork", "parent", "source"].Nodup by decide) ?_
  simp only [List.forall_mem_cons]
  exact ⟨.text, .boolean, name _, name _, fun _ => nofun⟩

theorem tidy_methods (methods : List MergeMethod) :
    (Value.array (methods.map MergeMethod.toValue)).Tidy 1 := by
  refine .array fun item listed => ?_
  rcases List.mem_map.mp listed with ⟨method, _, rfl⟩
  exact .text

theorem tidy_config (config : Config) : (configValue config).Tidy 1 := by
  refine .object (show Config.keys.reverse.Nodup by decide) ?_
  simp only [List.forall_mem_cons]
  exact ⟨.text, .text, fun _ => nofun⟩

theorem tidy_paths (surroundings : Surroundings) (paths : List FilePath) :
    (Value.array (paths.map (pathValue surroundings))).Tidy 2 := by
  refine .array fun item listed => ?_
  rcases List.mem_map.mp listed with ⟨path, _, rfl⟩
  refine .object (show ["exists", "path"].Nodup by decide) ?_
  simp only [List.forall_mem_cons]
  exact ⟨.boolean, .text, fun _ => nofun⟩

theorem tidy_failure (failure : Failure) : failure.toValue.Tidy 1 := by
  refine .object (show ["error", "code", "message"].Nodup by decide) ?_
  simp only [List.forall_mem_cons]
  exact ⟨.boolean, .text, .text, fun _ => nofun⟩

/-- A shallow value on a line of its own is a document. -/
theorem document_asLine {depth : Nat} {value : Value} (tidy : value.Tidy depth)
    (shallow : depth ≤ nestingAllowance) : Document (asLine (value.toText .pretty)) value :=
  .of_tidy (tidy.mono shallow) .pretty

/-- A repository is read again from the line that it is shown as. -/
theorem ofStream_document {text : String} {detailed : DetailedRepository}
    (document : Document text (DetailedRepository.codec.write detailed)) :
    DetailedRepository.ofStream (supplyOfText text) = .ok detailed := by
  rcases document.grammatical with ⟨form, written, distinct, denotes⟩
  exact asPayload_eq_ok_iff.mpr <| Codec.decode_written DetailedRepository.codec_follows
    (Nat.le_refl _) DetailedRepository.codec_writes written distinct denotes .stream

/-!
## The report that is not used
-/

def fallbackOpening : String := "\x7b\"error\": true, \"message\": \""

/-- A report that is put together without escaping what it holds. -/
def fallback (message : String) : String := fallbackOpening ++ message ++ "\"\x7d"

/-- How a text begins, as far as it tells the fallback from all that is reported. -/
def beginning (text : String) : List Char := text.toList.take 2

theorem beginning_append {text : String} (long : 2 ≤ text.length) (rest : String) :
    beginning (text ++ rest) = beginning text := by
  rw [beginning, String.toList_append, List.take_append_of_le_length, ← beginning]
  exact long

theorem beginning_fallback (message : String) :
    beginning (asLine (fallback message)) = ['\x7b', '\x22'] := by
  have long : 2 ≤ fallbackOpening.length := by decide +kernel
  rw [asLine, fallback, String.append_assoc, String.append_assoc, beginning_append long]
  decide +kernel

/-- A report begins with ink, with its first word, or with a brace on a line of its own. -/
theorem beginning_report (format : Format) (colour : Bool) (failure : Failure) :
    beginning (asLine (failure.render format colour)) ≠ ['\x7b', '\x22'] := by
  intro same
  rw [beginning] at same
  cases format with
  | json =>
      rw [asLine, String.toList_append, Failure.render, Value.toText, String.toList_ofList] at same
      have second : some '\n' = some '\x22' := congrArg (fun chars => chars[1]?) same
      exact absurd second (by decide)
  | text =>
      rw [Failure.asLine_render, String.toList_ofList] at same
      cases colour with
      | false =>
          have first : some 'E' = some '\x7b' := congrArg List.head? same
          exact absurd first (by decide)
      | true =>
          have first : some Ink.escape = some '\x7b' := congrArg List.head? same
          exact absurd first (by decide)

theorem head_of_beginning {text : String} (begins : beginning text = ['\x7b', '\x22']) :
    text.toList.head? = some '\x7b' := by
  have first := congrArg List.head? begins
  rw [beginning, List.head?_take, if_neg (by decide)] at first
  exact first

/-- Where a line asks for no command, the error stream has nothing or prose. -/
theorem beginning_refuse (fault : UsageFault) :
    beginning (refuse fault).errors ≠ ['\x7b', '\x22'] := by
  intro begins
  have head := head_of_beginning begins
  unfold refuse at head
  split at head
  case h_1 | h_2 => exact absurd head (by decide)
  case h_3 => exact help.notDocument head
  case h_4 => exact (complaint _).notDocument head

/-- No error stream begins like the fallback. -/
theorem errors_ne_fallback (surroundings : Surroundings) (input : Supply) (words : List String)
    (message : String) : (run surroundings input words).errors ≠ asLine (fallback message) := by
  intro same
  have begins := (congrArg beginning same).trans (beginning_fallback message)
  have written := run_written surroundings input words
  generalize run surroundings input words = outcome at begins written
  cases written with
  | answered | shown => exact absurd (show beginning "" = _ from begins) (by decide)
  | misused => exact beginning_refuse _ begins
  | reported => exact beginning_report _ _ _ begins

/-!
## Every run
-/

/-- A command line asks for something that is shown in JSON. -/
structure AsksJson (surroundings : Surroundings) (words : List String) (invocation : Invocation)
    (config : Config) : Prop where
  asked : invocationOf surroundings words = .ok invocation
  loads : configOf surroundings invocation = .ok config
  json : config.format = .json

/-- Whatever a run shows or reports in JSON is a document of just that. -/
structure Documented (surroundings : Surroundings) (input : Supply) (words : List String)
    (outcome : Outcome) : Prop where
  summary : forall invocation config file repository,
    AsksJson surroundings words invocation config -> invocation.action = .view .summary file ->
      repositoryOf surroundings input (originOf file) = .ok repository ->
        Document outcome.output (DetailedRepository.codec.write repository) ∧
          DetailedRepository.ofStream (supplyOfText outcome.output) = .ok repository
  /-- A parent or a source is null just when there is none. -/
  lineage : forall invocation config file repository,
    AsksJson surroundings words invocation config -> invocation.action = .view .lineage file ->
      repositoryOf surroundings input (originOf file) = .ok repository ->
        Exists fun value => Document outcome.output value ∧
          lineageIn? value = some (Lineage.ofRepository repository) ∧
          (value.member? "parent" = some .null ↔ repository.parent = none) ∧
          (value.member? "source" = some .null ↔ repository.source = none)
  methods : forall invocation config file repository,
    AsksJson surroundings words invocation config -> invocation.action = .view .methods file ->
      repositoryOf surroundings input (originOf file) = .ok repository ->
        Shows outcome.output (Value.items? methodIn?) repository.allowedMethods
  contents : forall invocation config, AsksJson surroundings words invocation config ->
    invocation.action = .config .contents -> Shows outcome.output configIn? config
  paths : forall invocation config, AsksJson surroundings words invocation config ->
    invocation.action = .config .paths ->
      Shows outcome.output (Value.items? pathIn?)
        ((surroundings.settingsFiles (explicitPath invocation)).map fun path =>
          (path.text, present surroundings path))
  report : forall invocation failure, invocationOf surroundings words = .ok invocation ->
    resultOf surroundings input invocation = .error failure ->
      formatOf surroundings invocation = .json ->
        Shows outcome.errors reportIn? ⟨true, "error", failure.message⟩
  /-- No report is put together without escaping what it holds. -/
  escaped : forall message, outcome.errors ≠ asLine (fallback message)

theorem output_of_perform {surroundings : Surroundings} {input : Supply} {words : List String}
    {invocation : Invocation} {config : Config} {text : String}
    (asks : AsksJson surroundings words invocation config)
    (performs : perform surroundings input invocation config = .ok text) :
    (run surroundings input words).output = text := by
  simp only [run, asks.asked, invoke_eq_outcomeOf, resultOf, asks.loads, performs, outcomeOf]

theorem perform_view {surroundings : Surroundings} {input : Supply} {invocation : Invocation}
    {config : Config} {aspect : Aspect} {file : Option String} {repository : DetailedRepository}
    (json : config.format = .json) (isAction : invocation.action = .view aspect file)
    (isRead : repositoryOf surroundings input (originOf file) = .ok repository) :
    perform surroundings input invocation config =
      .ok (asLine ((aspect.toValue repository).toText .pretty)) := by
  simp only [perform, isAction, isRead, ok_bind, json, Aspect.render]

theorem nameValue_null_iff (related : Option Repository) :
    some (Lineage.nameValue (related.map Repository.fullName)) = some .null ↔ related = none := by
  cases related with
  | none => exact ⟨fun _ => rfl, fun _ => rfl⟩
  | some repository => exact ⟨nofun, nofun⟩

theorem run_documented (surroundings : Surroundings) (input : Supply) (words : List String) :
    Documented surroundings input words (run surroundings input words) where
  summary := by
    intro invocation config file repository asks isAction isRead
    rw [output_of_perform asks (perform_view asks.json isAction isRead)]
    have document := document_asLine (DetailedRepository.codec_writes.tidy repository) (by decide)
    exact ⟨document, ofStream_document document⟩
  lineage := by
    intro invocation config file repository asks isAction isRead
    rw [output_of_perform asks (perform_view asks.json isAction isRead)]
    refine ⟨_, document_asLine (tidy_lineage _) (by decide), lineageIn?_toValue _, ?_, ?_⟩
    · exact nameValue_null_iff repository.parent
    · exact nameValue_null_iff repository.source
  methods := by
    intro invocation config file repository asks isAction isRead
    rw [output_of_perform asks (perform_view asks.json isAction isRead)]
    have reads := Value.items?_map methodIn?_toValue repository.allowedMethods
    rw [List.map_id'] at reads
    exact ⟨_, document_asLine (tidy_methods _) (by decide), reads⟩
  contents := by
    intro invocation config asks isAction
    have performs : perform surroundings input invocation config =
        .ok (asLine ((configValue config).toText .pretty)) := by
      simp only [perform, isAction, showConfig, asks.json]
    rw [output_of_perform asks performs]
    exact ⟨_, document_asLine (tidy_config config) (by decide), configIn?_configValue config⟩
  paths := by
    intro invocation config asks isAction
    have performs : perform surroundings input invocation config =
        .ok (asLine ((Value.array ((surroundings.settingsFiles (explicitPath invocation)).map
          (pathValue surroundings))).toText .pretty)) := by
      simp only [perform, isAction, showPaths, asks.json]
    rw [output_of_perform asks performs]
    exact ⟨_, document_asLine (tidy_paths surroundings _) (by decide),
      Value.items?_map (pathIn?_pathValue surroundings) _⟩
  report := by
    intro invocation failure asked fails json
    have errors : (run surroundings input words).errors =
        asLine (failure.toValue.toText .pretty) := by
      simp only [run, asked, invoke_eq_outcomeOf, fails, outcomeOf, json, Failure.render]
    rw [errors]
    exact ⟨_, document_asLine (tidy_failure failure) (by decide), reportIn?_toValue failure⟩
  escaped := errors_ne_fallback surroundings input words

/-- A quote in the name of a missing settings file is escaped in the report. -/
example : (run ⟨[], ⟨"/"⟩, none, false, fun _ => .nothing .absent⟩ ⟨[], none⟩
    ["--format", "json", "--config", "a\"b", "show"]).errors =
      "\x7b\n  \"error\": true,\n  \"code\": \"error\",\n" ++
        "  \"message\": \"Config file not found: a\\\"b\"\n\x7d\n" := by decide +kernel

end Program
end RepoInspector
