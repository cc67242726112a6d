import RepoInspector.Proofs.Program.Streams

namespace RepoInspector

/-!
# Payloads from files and from standard input

A payload is read alike from a file and from standard input.  Where it comes
from is told only in front of the message that refuses it.  A single hyphen
stands for standard input, and so does every path with the same names, but
all of these are written as directories and lead to no file.
-/

namespace Files
namespace FilePath

/-- Whether a path is written as one of a directory. -/
def isForDirectory (path : FilePath) : Bool :=
  path.endsInSeparator || path.written.getLast? = some here

/-- All that is written besides separators. -/
theorem flatten_stretches (text : List Char) :
    (stretches text).flatten = text.filter fun c => c ≠ separator := by
  induction text with
  | nil => rfl
  | cons c rest inductionHypothesis =>
      by_cases isSeparator : c = separator
      · rw [stretches, if_pos isSeparator, List.flatten_cons, inductionHypothesis,
          List.filter_cons_of_neg (by simp [isSeparator])]
        rfl
      · rw [List.filter_cons_of_pos (by simp [isSeparator]), ← inductionHypothesis, stretches,
          if_neg isSeparator]
        cases stretches rest <;> rfl

theorem flatten_written (path : FilePath) :
    (path.written.map String.toList).flatten = path.text.toList.filter fun c => c ≠ separator := by
  rw [← flatten_stretches, written]
  induction stretches path.text.toList with
  | nil => rfl
  | cons first others inductionHypothesis =>
      cases first with
      | nil => exact inductionHypothesis
      | cons c rest =>
          rw [List.map_cons, List.filter_cons_of_pos (by simp), List.map_cons, List.flatten_cons,
            inductionHypothesis, String.toList_ofList]
          rfl

/-- Of the paths with the one name of a hyphen only the hyphen itself is not
written as one of a directory. -/
theorem eq_hyphen_of_same {path : FilePath} (same : path.same ⟨"-"⟩ = true)
    (notDirectory : path.isForDirectory = false) : path.text = "-" := by
  rcases Bool.or_eq_false_iff.mp notDirectory with ⟨unended, notHere⟩
  rcases Bool.and_eq_true_iff.mp same with ⟨isRelative, isHyphen⟩
  have relative : path.isAbsolute = false := of_decide_eq_true isRelative
  have named : path.names = ["-"] := of_decide_eq_true isHyphen
  have isWritten : path.written = ["-"] := by
    unfold names at named
    rw [relative] at named
    cases written : path.written with
    | nil =>
        rw [written] at named
        cases named
    | cons first others =>
        rw [written] at named notHere
        rcases List.cons.inj named with ⟨rfl, none_named⟩
        rcases List.eq_nil_or_concat others with rfl | ⟨front, last, rfl⟩
        · rfl
        · have isHere : last = here := by
            simpa using List.filter_eq_nil_iff.mp none_named last (by simp)
          rw [isHere, List.concat_eq_append, ← List.cons_append, List.getLast?_concat] at notHere
          exact absurd rfl (of_decide_eq_false notHere)
  have chars := path.flatten_written
  rw [isWritten] at chars
  rcases List.filter_eq_cons_iff.mp chars.symm with ⟨before, after, split, separators, _, none_left⟩
  have at_front : before = [] := by
    cases before with
    | nil => rfl
    | cons c rest =>
        have isSeparator : c = separator := by
          simpa using separators c List.mem_cons_self
        rw [isAbsolute, split, isSeparator] at relative
        exact absurd rfl (of_decide_eq_false relative)
  have at_end : after = [] := by
    rcases List.eq_nil_or_concat after with rfl | ⟨front, last, rfl⟩
    · rfl
    · have isSeparator : last = separator := by
        simpa using List.filter_eq_nil_iff.mp none_left last (by simp)
      rw [endsInSeparator, split, isSeparator, List.concat_eq_append, ← List.cons_append,
        ← List.append_assoc, List.getLast?_concat] at unended
      exact absurd rfl (of_decide_eq_false unended)
  rw [at_front, at_end] at split
  exact String.toList_injective split

end FilePath

namespace Disk

/-- A path that ends in the name of its directory leads to no file. -/
theorem follow_here (disk : Disk) (working names place : List String) (bytes : List UInt8) :
    disk.follow working (names ++ [FilePath.here]) place ≠ .file bytes := by
  induction names generalizing place with
  | nil =>
      rw [List.nil_append, follow]
      cases stands : disk.entry place with
      | nothing | file => exact nofun
      | directory =>
          rw [if_pos rfl, follow, stands]
          exact nofun
  | cons name names inductionHypothesis =>
      rw [List.cons_append, follow]
      cases disk.entry place with
      | nothing | file => exact nofun
      | directory =>
          simp only
          repeat' split
          all_goals first | exact inductionHypothesis _ | exact nofun

theorem isForDirectory_of_file {disk : Disk} {directory path : FilePath} {bytes : List UInt8}
    (isFile : disk.lookup directory path = .file bytes) : path.isForDirectory = false := by
  rw [lookup] at isFile
  split at isFile
  case isTrue => cases isFile
  case isFalse =>
    cases ended : path.endsInSeparator with
    | true =>
        rw [ended] at isFile
        exact absurd isFile (disk.follow_here _ _ _ _)
    | false =>
        rw [ended] at isFile
        refine Bool.or_eq_false_iff.mpr ⟨ended, decide_eq_false fun isHere => ?_⟩
        rcases List.getLast?_eq_some_iff.mp isHere with ⟨front, isWritten⟩
        simp only [isWritten, Bool.false_eq_true, if_false, List.append_nil] at isFile
        exact disk.follow_here _ _ _ _ isFile

end Disk
end Files

namespace Program

open Command
open Files
open Json
open Model
open Settings
open View

/-!
## Where a payload comes from
-/

/-- What is written as a directory leads to no file. -/
def KeepsDirectories (surroundings : Surroundings) : Prop :=
  forall path bytes, surroundings.lookup path = .file bytes -> path.isForDirectory = false

section Reading

variable {surroundings : Surroundings} {path : String} {bytes : List UInt8}

/-- A path that leads to a file is none for standard input. -/
theorem originOf_file (keeps : KeepsDirectories surroundings)
    (readable : surroundings.lookup ⟨path⟩ = .file bytes) (other : path ≠ "-") :
    originOf (some path) = .file ⟨path⟩ := by
  have notInput : isInput ⟨path⟩ = false := by
    refine Bool.eq_false_iff.mpr fun same => other ?_
    exact FilePath.eq_hyphen_of_same same (keeps ⟨path⟩ bytes readable)
  rw [originOf, notInput]
  rfl

/-- A file is read as standard input with its bytes would be. -/
theorem repositoryOf_file (readable : surroundings.lookup ⟨path⟩ = .file bytes)
    (input : Supply) :
    repositoryOf surroundings input (.file ⟨path⟩) =
      (DetailedRepository.ofStream ⟨bytes, none⟩).mapError (.payload (.file ⟨path⟩)) := by
  rw [repositoryOf, supplyOf, readable]
  rfl

theorem repositoryOf_input (input : Supply) :
    repositoryOf surroundings input .input =
      (DetailedRepository.ofStream input).mapError (.payload .input) := rfl

end Reading

/-!
## Messages
-/

/-- The report of a message. -/
def messageReport (format : Format) (colour : Bool) (message : String) : String :=
  match format with
  | .json =>
      asLine ((Value.object [("error", .boolean true), ("code", .text "error"),
        ("message", .text message)]).toText .pretty)
  | .text =>
      asLine (String.ofList
        (Line.chars colour [.inked .boldRed "Error", .plain (": " ++ message)]))

theorem reportOf_eq (surroundings : Surroundings) (invocation : Invocation) (failure : Failure) :
    reportOf surroundings invocation failure =
      messageReport (formatOf surroundings invocation) (inked surroundings invocation)
        failure.message := by
  unfold reportOf Failure.render messageReport
  cases formatOf surroundings invocation <;> rfl

/-- Why a payload is refused, wherever it comes from. -/
def reasonOf (error : PayloadError) : String :=
  error.message ++ ": " ++ causeMessage error

theorem message_payload (origin : Origin) (error : PayloadError) :
    (Failure.payload origin error).message =
      "Invalid repository payload " ++ origin.message ++ ": " ++ reasonOf error := by
  simp only [Failure.message, Failure.causes, String.intercalate_cons_cons,
    String.intercalate_singleton, reasonOf, String.append_assoc]

theorem message_file (path : String) (error : PayloadError) :
    (Failure.payload (.file ⟨path⟩) error).message =
      "Invalid repository payload in " ++ path ++ ": " ++ reasonOf error := by
  have front : "Invalid repository payload " ++ "in " = "Invalid repository payload in " := by
    decide
  rw [message_payload, Origin.message, ← String.append_assoc, front]

theorem message_input (error : PayloadError) :
    (Failure.payload .input error).message =
      "Invalid repository payload on stdin: " ++ reasonOf error := by
  have front : "Invalid repository payload " ++ "on stdin" ++ ": " =
      "Invalid repository payload on stdin: " := by
    decide
  rw [message_payload, Origin.message, front]

/-!
## Runs
-/

/-- Two outcomes that are the same, but for the place that a message names
where a payload is refused. -/
structure Interchangeable (path : String) (fromFile fromInput : Outcome) : Prop where
  exitCode : fromFile.exitCode = fromInput.exitCode
  output : fromFile.output = fromInput.output
  errors : fromFile.errors = fromInput.errors ∨
    Exists fun format => Exists fun colour => Exists fun reason =>
      fromFile.errors = messageReport format colour
          ("Invalid repository payload in " ++ path ++ ": " ++ reason) ∧
        fromInput.errors = messageReport format colour
          ("Invalid repository payload on stdin: " ++ reason)

section Runs

variable {surroundings : Surroundings} {aspect : Aspect} {format : Option Format}
  {colour : Option ColourChoice} {config : Option String} {path : String} {bytes : List UInt8}

/-- Which file is named makes no difference to the configuration. -/
theorem configOf_view (file : Option String) :
    configOf surroundings ⟨.view aspect file, format, colour, config⟩ =
      configOf surroundings ⟨.view aspect none, format, colour, config⟩ := rfl

/-- Under a configuration, a view shows what is read from the origin. -/
theorem resultOf_view {loaded : Config}
    (isConfig : configOf surroundings ⟨.view aspect none, format, colour, config⟩ = .ok loaded)
    (input : Supply) (file : Option String) :
    resultOf surroundings input ⟨.view aspect file, format, colour, config⟩ =
      (repositoryOf surroundings input (originOf file)).map fun repository =>
        asLine (aspect.render loaded.format (loaded.colour.applies surroundings) repository) := by
  rw [resultOf, configOf_view, isConfig]
  simp only [perform]
  cases repositoryOf surroundings input (originOf file) <;> rfl

theorem invoke_interchangeable (keeps : KeepsDirectories surroundings)
    (readable : surroundings.lookup ⟨path⟩ = .file bytes) (other : path ≠ "-") (input : Supply) :
    Interchangeable path
      (invoke surroundings input ⟨.view aspect (some path), format, colour, config⟩)
      (invoke surroundings ⟨bytes, none⟩ ⟨.view aspect none, format, colour, config⟩) := by
  rw [invoke_eq_outcomeOf, invoke_eq_outcomeOf]
  cases isConfig : configOf surroundings ⟨.view aspect none, format, colour, config⟩ with
  | error fault =>
      have fails : forall file, forall supply, resultOf surroundings supply
          ⟨.view aspect file, format, colour, config⟩ = .error (.settings fault) := by
        intro file supply
        rw [resultOf, configOf_view, isConfig]
      rw [fails, fails]
      exact ⟨rfl, rfl, .inl rfl⟩
  | ok loaded =>
      have fromFile := resultOf_view isConfig input (some path)
      rw [originOf_file keeps readable other, repositoryOf_file readable] at fromFile
      have fromInput := resultOf_view isConfig ⟨bytes, none⟩ none
      rw [show originOf none = .input from rfl, repositoryOf_input] at fromInput
      rw [fromFile, fromInput]
      cases DetailedRepository.ofStream ⟨bytes, none⟩ with
      | ok repository => exact ⟨rfl, rfl, .inl rfl⟩
      | error error =>
          let refused : Invocation := ⟨.view aspect none, format, colour, config⟩
          refine ⟨rfl, rfl, .inr ⟨formatOf surroundings refused, inked surroundings refused,
            reasonOf error, ?_, ?_⟩⟩
          · rw [← message_file]
            exact reportOf_eq _ ⟨.view aspect (some path), format, colour, config⟩ _
          · rw [← message_input]
            exact reportOf_eq _ _ _

/-- A command on a file, on standard input by its marker, and on standard
input without any path: with the same bytes these do the same, but for where
a refused payload is told to be. -/
theorem run_interchangeable (keeps : KeepsDirectories surroundings)
    (readable : surroundings.lookup ⟨path⟩ = .file bytes) (other : path ≠ "-")
    {fileWords markerWords bareWords : List String}
    (onFile : invocationOf surroundings fileWords =
      .ok ⟨.view aspect (some path), format, colour, config⟩)
    (onMarker : invocationOf surroundings markerWords =
      .ok ⟨.view aspect (some "-"), format, colour, config⟩)
    (onNone : invocationOf surroundings bareWords =
      .ok ⟨.view aspect none, format, colour, config⟩)
    (input : Supply) :
    Interchangeable path (run surroundings input fileWords)
        (run surroundings ⟨bytes, none⟩ markerWords) ∧
      Interchangeable path (run surroundings input fileWords)
        (run surroundings ⟨bytes, none⟩ bareWords) ∧
      run surroundings ⟨bytes, none⟩ markerWords = run surroundings ⟨bytes, none⟩ bareWords := by
  have sameInput : run surroundings ⟨bytes, none⟩ markerWords =
      run surroundings ⟨bytes, none⟩ bareWords := by
    rw [run, onMarker, run, onNone]
    rfl
  have interchangeable : Interchangeable path (run surroundings input fileWords)
      (run surroundings ⟨bytes, none⟩ bareWords) := by
    rw [run, onFile, run, onNone]
    exact invoke_interchangeable keeps readable other input
  exact ⟨sameInput ▸ interchangeable, interchangeable, sameInput⟩

end Runs

/-- A disk with a file that is named like the marker of standard input. -/
def markerDisk : Disk where
  files := [(["work", "-"], [123])]
  directories := []

def nearMarker : Surroundings where
  environment := []
  directory := ⟨"/work"⟩
  accountHome := none
  terminal := false
  lookup := markerDisk.lookup ⟨"/work"⟩

theorem run_interchangeable_unclosed :
    KeepsDirectories nearMarker ∧ nearMarker.lookup ⟨"./-"⟩ = .file [123] ∧
      (run nearMarker ⟨[], none⟩ ["m", "./-"]).exitCode = 1 ∧
      Interchangeable "./-" (run nearMarker ⟨[], none⟩ ["m", "./-"])
        (run nearMarker ⟨[123], none⟩ ["m", "-"]) ∧
      Interchangeable "./-" (run nearMarker ⟨[], none⟩ ["m", "./-"])
        (run nearMarker ⟨[123], none⟩ ["m"]) ∧
      run nearMarker ⟨[123], none⟩ ["m", "-"] = run nearMarker ⟨[123], none⟩ ["m"] := by
  have keeps : KeepsDirectories nearMarker := fun _ _ isFile => Disk.isForDirectory_of_file isFile
  have readable : nearMarker.lookup ⟨"./-"⟩ = .file [123] := by decide
  refine ⟨keeps, readable, by decide +kernel, ?_⟩
  have onFile : invocationOf nearMarker ["m", "./-"] =
      .ok ⟨.view .methods (some "./-"), none, none, none⟩ := rfl
  exact run_interchangeable keeps readable (by decide) onFile rfl rfl _

end Program
end RepoInspector
