import Mathlib.Logic.Basic
import RepoInspector.Program.Run
import RepoInspector.Proofs.Settings.Config

namespace RepoInspector
namespace Program

open Command
open Files
open Json
open Settings
open View

/-!
# The configuration of a run

For each of its two choices a run asks the command line, then the environment,
then the settings files from the last to the first, and takes the first answer.
The command line is asked only after the rest has come to a configuration, so
it covers no fault below it; the layers below cover each other's.

A settings file that is named explicitly is the only one.  Yet what it holds
may depend on more than its path: where a relative path leads to a directory,
a file under the same path further up is read in its place.
-/

/-- The configuration that a run uses, if one is loaded. -/
def configOf (surroundings : Surroundings) (invocation : Invocation) :
    Except Settings.Fault Config :=
  (Config.load surroundings (explicitPath invocation)).map fun loaded =>
    loaded.withChoices invocation.format invocation.colour

theorem invoke_configOf (surroundings : Surroundings) (input : Supply)
    (invocation : Invocation) :
    invoke surroundings input invocation =
      match configOf surroundings invocation with
      | .error fault =>
          outcomeOf (invocation.format.getD Choice.default) (defaultColour surroundings)
            (.error (.settings fault))
      | .ok config =>
          outcomeOf config.format (config.colour.applies surroundings)
            (perform surroundings input invocation config) := by
  unfold invoke configOf
  cases Config.load surroundings (explicitPath invocation) <;> rfl

theorem configOf_eq_ok_iff {surroundings : Surroundings} {invocation : Invocation}
    {config : Config} :
    configOf surroundings invocation = .ok config ↔
      Exists fun loaded => Config.load surroundings (explicitPath invocation) = .ok loaded ∧
        loaded.withChoices invocation.format invocation.colour = config :=
  map_eq_ok_iff

/-- What the command line chooses counts before what the layers come to. -/
theorem effective_of_config {surroundings : Surroundings} {invocation : Invocation}
    {config : Config} (isConfig : configOf surroundings invocation = .ok config) :
    some config.format = invocation.format.or
        (surroundings.effective? Format (explicitPath invocation)) ∧
      some config.colour = invocation.colour.or
        (surroundings.effective? ColourChoice (explicitPath invocation)) := by
  rcases configOf_eq_ok_iff.mp isConfig with ⟨loaded, loads, rfl⟩
  rcases load_eq_ok_iff.mp loads with ⟨_, _, format, colour⟩
  rw [format, colour]
  constructor
  · cases invocation.format <;> rfl
  · cases invocation.colour <;> rfl

/-!
## What a configuration fails for
-/

section Faults

variable (surroundings : Surroundings) (explicit : Option FilePath)

/-- The file that is named explicitly is missing. -/
def ExplicitMissing : Prop :=
  Exists fun path => explicit = some path ∧ (surroundings.lookup path).isPresent = false

/-- Some file that is read is no settings file. -/
def FileBroken : Prop :=
  ∃ path ∈ surroundings.settingsFiles explicit, Exists fun bytes =>
    surroundings.bytes? path = some bytes ∧ settingsIn? bytes = none

/-- What the highest layer below the command line gives is no choice. -/
def Undecided (α : Type) [Choice α] : Prop :=
  Exists fun given => surroundings.given? explicit (Choice.key α) = some given ∧
    given.choice? α = none

variable {surroundings explicit}

theorem explicitMissing_iff :
    ExplicitMissing surroundings explicit ↔ ¬ surroundings.ExplicitThere explicit := by
  simp only [ExplicitMissing, Surroundings.ExplicitThere, not_forall, Option.mem_def,
    Bool.not_eq_true, exists_prop]

theorem fileBroken_iff :
    FileBroken surroundings explicit ↔ ¬ surroundings.FilesHold explicit := by
  simp only [FileBroken, Surroundings.FilesHold, not_forall, not_not, exists_prop]

theorem undecided_iff {α : Type} [Choice α] :
    Undecided surroundings explicit α ↔ surroundings.effective? α explicit = none := by
  unfold Undecided Surroundings.effective?
  cases surroundings.given? explicit (Choice.key α) with
  | none => simp only [reduceCtorEq, false_and, exists_false]
  | some given => simp only [Option.some.injEq, exists_eq_left']

end Faults

/-!
## What a configuration depends on
-/

/-- Whether an entry of a settings file is one for a choice. -/
def isForChoice (entry : String × Toml.Value) : Bool := entry.1 ∈ Config.keys

/-- Whether a variable sets a choice. -/
def setsChoice (entry : String × String) : Bool := (Config.keyOf? entry.1).isSome

/-- What is read for a path, if anything is: the entries for choices, if it is
a settings file. -/
def choiceEntries? (surroundings : Surroundings) (path : FilePath) :
    Option (Option (List (String × Toml.Value))) :=
  (surroundings.bytes? path).map fun bytes =>
    (settingsIn? bytes).map fun entries => entries.filter isForChoice

/-- Surroundings whose settings files and variables differ at most in what is
for no choice: in other entries, tables among them, and in other variables. -/
structure SameChoices (surroundings other : Surroundings) (explicit : Option FilePath) :
    Prop where
  there : other.ExplicitThere explicit ↔ surroundings.ExplicitThere explicit
  paths : other.settingsFiles explicit = surroundings.settingsFiles explicit
  entries : ∀ path ∈ surroundings.settingsFiles explicit,
    choiceEntries? other path = choiceEntries? surroundings path
  environment : other.environment.filter setsChoice = surroundings.environment.filter setsChoice

/-- Surroundings that agree on the variables that set a choice, and on what a
path leads to. -/
structure SameEntry (surroundings other : Surroundings) (path : FilePath) : Prop where
  directory : other.directory = surroundings.directory
  environment : other.environment.filter setsChoice = surroundings.environment.filter setsChoice
  entry : other.lookup path = surroundings.lookup path

/-- The same, with the file further up if the path is relative and leads to a directory. -/
structure SameSource (surroundings other : Surroundings) (path : FilePath) : Prop
    extends SameEntry surroundings other path where
  above : path.isAbsolute = false -> surroundings.lookup path = .directory ->
    other.fileAbove? path = surroundings.fileAbove? path

/-- What a file under a relative path holds, in the nearest directory above the
working directory that has a file there. -/
def FoundAbove (surroundings : Surroundings) (path : FilePath) (bytes : List UInt8) : Prop :=
  Exists fun count => count < surroundings.directory.names.length ∧
    surroundings.lookup ((surroundings.directory.ancestor count).join path) = .file bytes ∧
    forall nearer, count < nearer -> nearer < surroundings.directory.names.length ->
      forall others,
        surroundings.lookup ((surroundings.directory.ancestor nearer).join path) ≠ .file others

section Dependence

variable {surroundings other : Surroundings}

theorem findSome?_congr {ι κ : Type} {f g : ι -> Option κ} {items : List ι}
    (same : ∀ item ∈ items, f item = g item) : items.findSome? f = items.findSome? g := by
  induction items with
  | nil => rfl
  | cons item items inductionHypothesis =>
      rcases List.forall_mem_cons.mp same with ⟨first, rest⟩
      rw [List.findSome?_cons, List.findSome?_cons, first, inductionHypothesis rest]

/-- What is found only among some items is found among just these. -/
theorem find?_reverse_filter {ι : Type} {among sought : ι -> Bool}
    (only : forall item, sought item = true -> among item = true) (items : List ι) :
    (items.filter among).reverse.find? sought = items.reverse.find? sought := by
  rw [← List.filter_reverse, List.find?_filter]
  congr 1
  funext item
  cases isSought : sought item with
  | false => simp only [Bool.false_eq_true, and_false, decide_false]
  | true => simp only [only item isSought, and_self, decide_true]

theorem fileGives?_eq {key : String} (isKey : key ∈ Config.keys) (path : FilePath) :
    surroundings.fileGives? key path =
      (choiceEntries? surroundings path).bind fun found => found.bind fun entries =>
        (entries.reverse.find? fun entry => entry.1 = key).map fun entry => .file entry.2 := by
  have only : forall entry : String × Toml.Value,
      decide (entry.1 = key) = true -> isForChoice entry = true := by
    intro entry same
    rw [isForChoice, of_decide_eq_true same]
    exact decide_eq_true isKey
  unfold Surroundings.fileGives? choiceEntries?
  cases surroundings.bytes? path with
  | none => rfl
  | some bytes =>
      simp only [Option.map_some, Option.bind_some]
      cases settingsIn? bytes with
      | none => rfl
      | some entries => simp only [Option.map_some, Option.bind_some, find?_reverse_filter only]

theorem variableGives?_eq (key : String) :
    surroundings.variableGives? key =
      ((surroundings.environment.filter setsChoice).reverse.find? fun entry =>
        Config.keyOf? entry.1 = some key).map fun entry => .variable entry.2 := by
  have only : forall entry : String × String,
      decide (Config.keyOf? entry.1 = some key) = true -> setsChoice entry = true := by
    intro entry same
    rw [setsChoice, of_decide_eq_true same]
    rfl
  rw [Surroundings.variableGives?, find?_reverse_filter only]

theorem filesHold_iff {explicit : Option FilePath} :
    surroundings.FilesHold explicit ↔
      ∀ path ∈ surroundings.settingsFiles explicit,
        choiceEntries? surroundings path ≠ some none := by
  refine forall₂_congr fun path _ => ?_
  unfold choiceEntries?
  cases surroundings.bytes? path with
  | none => exact ⟨fun _ => nofun, fun _ _ => nofun⟩
  | some bytes => simp only [Option.some.injEq, forall_eq', Option.map_some, ne_eq,
      Option.map_eq_none_iff]

theorem SameChoices.filesHold_iff {explicit : Option FilePath}
    (same : SameChoices surroundings other explicit) :
    other.FilesHold explicit ↔ surroundings.FilesHold explicit := by
  rw [Program.filesHold_iff, Program.filesHold_iff, same.paths]
  refine forall₂_congr fun path listed => ?_
  rw [same.entries path listed]

theorem SameChoices.effective? {explicit : Option FilePath}
    (same : SameChoices surroundings other explicit) {α : Type} [Choice α]
    (isKey : Choice.key α ∈ Config.keys) :
    other.effective? α explicit = surroundings.effective? α explicit := by
  have each : ∀ path ∈ (surroundings.settingsFiles explicit).reverse,
      other.fileGives? (Choice.key α) path = surroundings.fileGives? (Choice.key α) path := by
    intro path listed
    rw [fileGives?_eq isKey, fileGives?_eq isKey, same.entries path (List.mem_reverse.mp listed)]
  simp only [Surroundings.effective?, Surroundings.given?, same.paths, findSome?_congr each,
    variableGives?_eq, same.environment]

theorem environmentLayer_congr {environment others : List (String × String)}
    (same : others.filter setsChoice = environment.filter setsChoice) :
    Config.environmentLayer others = Config.environmentLayer environment := by
  have only : forall entries : List (String × String), Config.environmentLayer entries =
      Config.environmentLayer (entries.filter setsChoice) := by
    intro entries
    unfold Config.environmentLayer
    rw [List.filterMap_filter]
    congr 2
    funext entry
    unfold setsChoice
    cases Config.keyOf? entry.1 <;> rfl
  rw [only others, same, ← only environment]

/-- The variables that lead to directories set no choice. -/
example : setsChoice ("HOME", "/root") = false ∧
    setsChoice ("XDG_CONFIG_HOME", "/etc") = false := by decide +kernel

theorem fileAbove?_of_absolute {path : FilePath} (absolute : path.isAbsolute = true) :
    surroundings.fileAbove? path = none := by
  rw [Surroundings.fileAbove?, FilePath.fromAbove, if_pos absolute]
  rfl

theorem SameSource.file? {path : FilePath} (same : SameSource surroundings other path)
    (isPresent : (surroundings.lookup path).isPresent = true) :
    other.file? path = surroundings.file? path := by
  unfold Surroundings.file?
  rw [same.entry, same.directory]
  cases leads : surroundings.lookup path with
  | nothing fault =>
      rw [leads] at isPresent
      cases isPresent
  | file bytes => rfl
  | directory =>
      cases absolute : path.isAbsolute with
      | true => exact (fileAbove?_of_absolute absolute).trans (fileAbove?_of_absolute absolute).symm
      | false => exact same.above absolute leads

theorem SameSource.layer {path : FilePath} (same : SameSource surroundings other path) :
    Config.layer other path = Config.layer surroundings path := by
  unfold Config.layer
  rw [same.entry, same.directory]
  cases isPresent : (surroundings.lookup path).isPresent with
  | false => rfl
  | true => rw [same.file? isPresent]

theorem SameSource.load {path : FilePath} (same : SameSource surroundings other path) :
    Config.load other (some path) = Config.load surroundings (some path) := by
  have layers : [path].mapM (Config.layer other) = [path].mapM (Config.layer surroundings) := by
    simp only [List.mapM_cons, List.mapM_nil, same.layer]
  simp only [Config.load, Config.checkExplicit, Surroundings.settingsFiles, same.entry, layers,
    environmentLayer_congr same.environment]

/-- What is found first from the greatest number down. -/
theorem findSome?_downward {κ : Type} (f : Nat -> Option κ) (bound : Nat) (found : κ) :
    (List.range bound).reverse.findSome? f = some found ↔
      Exists fun count => count < bound ∧ f count = some found ∧
        forall nearer, count < nearer -> nearer < bound -> f nearer = none := by
  induction bound with
  | zero => simp only [List.range_zero, List.reverse_nil, List.findSome?_nil, reduceCtorEq,
      Nat.not_lt_zero, false_and, exists_false]
  | succ bound inductionHypothesis =>
      rw [List.range_succ, List.reverse_concat, List.findSome?_cons]
      cases last : f bound with
      | some value =>
          constructor
          · rintro ⟨⟩
            exact ⟨bound, Nat.lt_succ_self bound, last, fun nearer above below => by omega⟩
          · rintro ⟨count, below, isFound, none_nearer⟩
            rcases Nat.lt_succ_iff_lt_or_eq.mp below with lower | rfl
            · have := none_nearer bound lower (Nat.lt_succ_self bound)
              rw [last] at this
              cases this
            · exact last.symm.trans isFound
      | none =>
          rw [inductionHypothesis]
          constructor
          · rintro ⟨count, below, isFound, none_nearer⟩
            refine ⟨count, Nat.lt_succ_of_lt below, isFound, fun nearer above below => ?_⟩
            rcases Nat.lt_succ_iff_lt_or_eq.mp below with lower | rfl
            · exact none_nearer nearer above lower
            · exact last
          · rintro ⟨count, below, isFound, none_nearer⟩
            have lower : count < bound := by
              apply Nat.lt_of_le_of_ne (Nat.le_of_lt_succ below)
              intro same
              rw [same, last] at isFound
              cases isFound
            exact ⟨count, lower, isFound,
              fun nearer above below => none_nearer nearer above (Nat.lt_succ_of_lt below)⟩

theorem labelled_bytes?_iff {entry : Entry} {path : FilePath} {bytes : List UInt8} :
    entry.bytes?.map (Prod.snd ∘ fun bytes => (path, bytes)) = some bytes ↔
      entry = .file bytes := by
  cases entry <;> simp [Entry.bytes?]

theorem fileAbove?_bytes_iff {path : FilePath} {bytes : List UInt8} :
    (surroundings.fileAbove? path).map Prod.snd = some bytes ↔
      path.isAbsolute = false ∧ FoundAbove surroundings path bytes := by
  cases absolute : path.isAbsolute with
  | true =>
      rw [fileAbove?_of_absolute absolute]
      simp only [Option.map_none, reduceCtorEq, Bool.true_eq_false, false_and]
  | false =>
      have relative : ¬ path.isAbsolute = true := by
        rw [absolute]
        exact Bool.false_ne_true
      simp only [Surroundings.fileAbove?, FilePath.fromAbove, if_neg relative,
        List.map_findSome?, List.findSome?_map, findSome?_downward, Function.comp_apply,
        Option.map_map, FoundAbove, labelled_bytes?_iff, true_and,
        Option.eq_none_iff_forall_ne_some, ne_eq]

/-- A path is read where it leads.  A directory is not read, but a relative path
to one is followed further up. -/
theorem bytes?_iff {path : FilePath} {bytes : List UInt8} :
    surroundings.bytes? path = some bytes ↔
      surroundings.lookup path = .file bytes ∨
        surroundings.lookup path = .directory ∧ path.isAbsolute = false ∧
          FoundAbove surroundings path bytes := by
  rw [← fileAbove?_bytes_iff]
  unfold Surroundings.bytes? Surroundings.file?
  cases surroundings.lookup path <;> simp [Entry.isPresent]

end Dependence

/-!
## The layers of a run
-/

/-- How the layers come to the configuration of a run. -/
structure Layered (surroundings : Surroundings) (invocation : Invocation) : Prop where
  /-- A run carries out its command under this configuration, and reports the
  failure to load it in place of the command. -/
  used : forall input, invoke surroundings input invocation =
    match configOf surroundings invocation with
    | .error fault =>
        outcomeOf (invocation.format.getD Choice.default) (defaultColour surroundings)
          (.error (.settings fault))
    | .ok config =>
        outcomeOf config.format (config.colour.applies surroundings)
          (perform surroundings input invocation config)
  /-- A choice of the command line counts before all layers. -/
  effective : forall config, configOf surroundings invocation = .ok config ->
    some config.format = invocation.format.or
        (surroundings.effective? Format (explicitPath invocation)) ∧
      some config.colour = invocation.colour.or
        (surroundings.effective? ColourChoice (explicitPath invocation))
  /-- What the command line chooses does not matter for a failure. -/
  fails_iff : (Exists fun fault => configOf surroundings invocation = .error fault) ↔
    ExplicitMissing surroundings (explicitPath invocation) ∨
      FileBroken surroundings (explicitPath invocation) ∨
      Undecided surroundings (explicitPath invocation) Format ∨
      Undecided surroundings (explicitPath invocation) ColourChoice
  /-- Other keys, tables and variables do not matter. -/
  choices_only : forall other, SameChoices surroundings other (explicitPath invocation) ->
    forall config, configOf other invocation = .ok config ↔
      configOf surroundings invocation = .ok config
  /-- What counts as the file of a path. -/
  read : forall path bytes, surroundings.bytes? path = some bytes ↔
    surroundings.lookup path = .file bytes ∨
      surroundings.lookup path = .directory ∧ path.isAbsolute = false ∧
        FoundAbove surroundings path bytes
  /-- Beside the file that an explicit path means nothing else that stands
  anywhere matters. -/
  explicit_alone : forall other path, explicitPath invocation = some path ->
    SameSource surroundings other path ->
      configOf other invocation = configOf surroundings invocation

theorem configuration_layered (surroundings : Surroundings) (invocation : Invocation) :
    Layered surroundings invocation where
  used input := invoke_configOf surroundings input invocation
  effective _ isConfig := effective_of_config isConfig
  fails_iff := by
    have fails : (Exists fun fault => configOf surroundings invocation = .error fault) ↔
        ¬ Exists fun config => configOf surroundings invocation = .ok config := by
      cases configOf surroundings invocation <;> simp
    have loads : (Exists fun config => configOf surroundings invocation = .ok config) ↔
        surroundings.ExplicitThere (explicitPath invocation) ∧
          surroundings.FilesHold (explicitPath invocation) ∧
          (Exists fun format =>
            surroundings.effective? Format (explicitPath invocation) = some format) ∧
          (Exists fun colour =>
            surroundings.effective? ColourChoice (explicitPath invocation) = some colour) := by
      simp only [configOf_eq_ok_iff, load_eq_ok_iff]
      constructor
      · rintro ⟨_, loaded, ⟨there, hold, format, colour⟩, _⟩
        exact ⟨there, hold, ⟨_, format⟩, _, colour⟩
      · rintro ⟨there, hold, ⟨format, isFormat⟩, colour, isColour⟩
        exact ⟨_, ⟨format, colour⟩, ⟨there, hold, isFormat, isColour⟩, rfl⟩
    rw [fails, loads, explicitMissing_iff, fileBroken_iff, undecided_iff, undecided_iff,
      Option.eq_none_iff_forall_ne_some, Option.eq_none_iff_forall_ne_some]
    simp only [not_and_or, not_exists]
  choices_only := by
    intro other same config
    simp only [configOf_eq_ok_iff, load_eq_ok_iff, same.there, same.filesHold_iff,
      same.effective? (α := Format) (by decide), same.effective? (α := ColourChoice) (by decide)]
  read _ _ := bytes?_iff
  explicit_alone := by
    intro other path isPath same
    rw [configOf, configOf, isPath, same.load]

/-- A working directory in which a directory has the name of the settings file. -/
def inner (files : List (List String × List UInt8)) : Surroundings where
  environment := []
  directory := ⟨"/work/inner"⟩
  accountHome := none
  terminal := false
  lookup := Disk.lookup ⟨files, [["work", "inner", "conf"]], none⟩ ⟨"/work/inner"⟩

/-- A file of the same name in the directory above. -/
def outerFile : List String × List UInt8 := (["work", "conf"], "format = \"json\"".toUTF8.toList)

def showSettings : Invocation := ⟨.config .contents, none, none, some "conf"⟩

/-- A run that is told its one settings file is not left alone by others: where
a relative path leads to a directory, a file further up is read. -/
theorem explicit_not_alone :
    (inner []).lookup ⟨"conf"⟩ = .directory ∧
    SameEntry (inner []) (inner [outerFile]) ⟨"conf"⟩ ∧
    (configOf (inner []) showSettings).toOption = some ⟨.text, .auto⟩ ∧
    (configOf (inner [outerFile]) showSettings).toOption = some ⟨.json, .auto⟩ ∧
    ¬ forall surroundings other invocation path, explicitPath invocation = some path ->
      SameEntry surroundings other path ->
        configOf other invocation = configOf surroundings invocation := by
  have same : SameEntry (inner []) (inner [outerFile]) ⟨"conf"⟩ := ⟨rfl, rfl, by decide +kernel⟩
  have alone : (configOf (inner []) showSettings).toOption = some ⟨.text, .auto⟩ := by
    decide +kernel
  have above : (configOf (inner [outerFile]) showSettings).toOption = some ⟨.json, .auto⟩ := by
    decide +kernel
  refine ⟨by decide +kernel, same, alone, above, fun independent => ?_⟩
  have equal := congrArg Except.toOption (independent _ _ showSettings _ rfl same)
  rw [above, alone] at equal
  cases equal

end Program
end RepoInspector
