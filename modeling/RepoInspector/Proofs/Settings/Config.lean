import RepoInspector.Proofs.Settings.Layers

namespace RepoInspector
namespace Settings

open Files
open View

/-!
# When a configuration is loaded

The layers are read here once more, without laying anything over anything: a
path gives what is written in its file, the environment what its variables
hold, and for each choice the highest layer that gives anything is asked.  A
configuration is loaded exactly when every file that is read is a settings
file and what is asked for each choice names one.
-/

/-- What a layer gives for a key. -/
inductive Given
  | file (value : Toml.Value)
  | variable (text : String)

/-- The choice that is given, if one is.  In a file it has to be a text; a
variable has a notation of its own. -/
def Given.choice? (α : Type) [Choice α] : Given -> Option α
  | .file (.text name) => Choice.ofName? name
  | .file _ => none
  | .variable text => (Datum.ofVariable text).choice? α

/-- The entries that bytes hold, if they are a settings file. -/
def settingsIn? (bytes : List UInt8) : Option (List (String × Toml.Value)) :=
  (String.fromUTF8? bytes.toByteArray).bind fun text => (Toml.ofText text).toOption

namespace Surroundings

/-- The bytes that are read for a path: none unless it is there and means a file. -/
def bytes? (surroundings : Surroundings) (path : FilePath) : Option (List UInt8) :=
  if (surroundings.lookup path).isPresent then (surroundings.file? path).map Prod.snd else none

/-- What the file of a path gives for a key. -/
def fileGives? (surroundings : Surroundings) (key : String) (path : FilePath) : Option Given :=
  ((surroundings.bytes? path).bind settingsIn?).bind fun entries =>
    (entries.reverse.find? fun entry => entry.1 = key).map fun entry => .file entry.2

/-- What the environment gives for a key, in the last variable that sets it. -/
def variableGives? (surroundings : Surroundings) (key : String) : Option Given :=
  (surroundings.environment.reverse.find? fun entry => Config.keyOf? entry.1 = some key).map
    fun entry => .variable entry.2

/-- What the highest layer that has a key gives for it: the environment, or the
last of the files. -/
def given? (surroundings : Surroundings) (explicit : Option FilePath) (key : String) :
    Option Given :=
  (surroundings.variableGives? key).or
    ((surroundings.settingsFiles explicit).reverse.findSome? (surroundings.fileGives? key))

/-- The choice that the layers come to, if what is given is one. -/
def effective? (α : Type) [Choice α] (surroundings : Surroundings) (explicit : Option FilePath) :
    Option α :=
  match surroundings.given? explicit (Choice.key α) with
  | some given => given.choice? α
  | none => some Choice.default

/-- Every file that is read for settings is a settings file. -/
def FilesHold (surroundings : Surroundings) (explicit : Option FilePath) : Prop :=
  ∀ path ∈ surroundings.settingsFiles explicit, forall bytes,
    surroundings.bytes? path = some bytes -> settingsIn? bytes ≠ none

/-- A file that is named explicitly is there. -/
def ExplicitThere (surroundings : Surroundings) (explicit : Option FilePath) : Prop :=
  ∀ path ∈ explicit, (surroundings.lookup path).isPresent = true

end Surroundings

/-!
## What one layer says
-/

section Layer

variable {α : Type} [Choice α]

theorem Datum.ofEntries_eq_map (source : Source) (entries : List (String × Toml.Value)) :
    ofEntries source entries = entries.map fun entry => (entry.1, ofValue source entry.2) := by
  induction entries with
  | nil => rw [ofEntries]; rfl
  | cons entry entries inductionHypothesis =>
      rw [ofEntries, inductionHypothesis]
      rfl

theorem Datum.choice?_ofValue (source : Source) (value : Toml.Value) :
    (ofValue source value).choice? α = (Given.file value).choice? α := by
  cases value <;> simp only [ofValue, choice?, Given.choice?]

theorem fileEntries_eq_ok_iff {shown : String} {bytes : List UInt8} {entries : Entries} :
    Config.fileEntries shown bytes = .ok entries ↔
      Exists fun settings => settingsIn? bytes = some settings ∧
        Datum.layered (Datum.ofEntries (.file shown) settings) = entries := by
  unfold Config.fileEntries settingsIn?
  cases String.fromUTF8? bytes.toByteArray with
  | none => simp only [reduceCtorEq, Option.bind_none, false_and, exists_false]
  | some text =>
      simp only [Option.bind_some]
      cases Toml.ofText text with
      | error place => simp only [reduceCtorEq, Except.toOption, false_and, exists_false]
      | ok settings => simp only [Except.toOption, Except.ok.injEq, Option.some.injEq,
          exists_eq_left']

/-- The entries of a settings file say what stands last under the key. -/
theorem stated_ofSettings (source : Source) (settings : List (String × Toml.Value)) :
    stated α (Datum.layered (Datum.ofEntries source settings)) =
      (settings.reverse.find? fun entry => entry.1 = Choice.key α).map
        fun entry => (Given.file entry.2).choice? α := by
  rw [stated_layered, Datum.ofEntries_eq_map, ← List.map_reverse, stated, List.find?_map,
    Option.map_map]
  simp only [Function.comp_def, Datum.choice?_ofValue]

variable {surroundings : Surroundings} {path : FilePath}

theorem layer_absent (absent : surroundings.bytes? path = none) :
    Config.layer surroundings path = .ok [] := by
  unfold Surroundings.bytes? at absent
  unfold Config.layer
  split at absent
  case isFalse missing =>
    rw [Bool.eq_false_iff.mpr missing]
    rfl
  case isTrue present =>
    rw [present, Option.map_eq_none_iff.mp absent]
    rfl

theorem layer_found {bytes : List UInt8} (isRead : surroundings.bytes? path = some bytes) :
    Exists fun shown => Config.layer surroundings path =
      (Config.fileEntries shown bytes).mapError (Fault.file shown) := by
  unfold Surroundings.bytes? at isRead
  unfold Config.layer
  split at isRead
  case isFalse => cases isRead
  case isTrue present =>
    rcases Option.map_eq_some_iff.mp isRead with ⟨⟨found, _⟩, isFile, rfl⟩
    rw [present, isFile]
    exact ⟨surroundings.directory.shown found, rfl⟩

theorem mapError_eq_ok_iff {ε κ β : Type} {result : Except ε β} {f : ε -> κ} {b : β} :
    result.mapError f = .ok b ↔ result = .ok b := by
  cases result with
  | error fault => exact ⟨nofun, nofun⟩
  | ok found =>
      constructor
      · intro done
        exact congrArg Except.ok (Except.ok.inj done)
      · intro done
        exact congrArg Except.ok (Except.ok.inj done)

/-- A layer says what its file gives. -/
theorem stated_layer {entries : Entries} (loads : Config.layer surroundings path = .ok entries) :
    stated α entries =
      (surroundings.fileGives? (Choice.key α) path).map (Given.choice? α) := by
  unfold Surroundings.fileGives?
  cases reads : surroundings.bytes? path with
  | none =>
      rw [layer_absent reads] at loads
      cases loads
      rfl
  | some bytes =>
      rcases layer_found reads with ⟨shown, isLayer⟩
      rw [isLayer, mapError_eq_ok_iff] at loads
      rcases fileEntries_eq_ok_iff.mp loads with ⟨settings, isRead, rfl⟩
      rw [stated_ofSettings, Option.bind_some, isRead, Option.bind_some, Option.map_map]
      rfl

theorem layer_isOk_iff :
    (Exists fun entries => Config.layer surroundings path = .ok entries) ↔
      forall bytes, surroundings.bytes? path = some bytes -> settingsIn? bytes ≠ none := by
  cases reads : surroundings.bytes? path with
  | none => exact ⟨fun _ => nofun, fun _ => ⟨[], layer_absent reads⟩⟩
  | some bytes =>
      rcases layer_found reads with ⟨shown, isLayer⟩
      simp only [isLayer, mapError_eq_ok_iff, fileEntries_eq_ok_iff, Option.some.injEq, forall_eq',
        Option.ne_none_iff_exists']
      constructor
      · rintro ⟨_, settings, isRead, _⟩
        exact ⟨settings, isRead⟩
      · rintro ⟨settings, isRead⟩
        exact ⟨_, settings, isRead, rfl⟩

/-- The layer of the environment says what its variables give. -/
theorem stated_environmentLayer (surroundings : Surroundings) :
    stated α (Config.environmentLayer surroundings.environment) =
      (surroundings.variableGives? (Choice.key α)).map (Given.choice? α) := by
  unfold Config.environmentLayer Surroundings.variableGives?
  rw [stated_layered, ← List.filterMap_reverse]
  induction surroundings.environment.reverse with
  | nil => rfl
  | cons entry entries inductionHypothesis =>
      rw [List.filterMap_cons, List.find?_cons]
      cases isKey : Config.keyOf? entry.1 with
      | none => exact inductionHypothesis
      | some key =>
          rw [Option.map_some, stated_cons, inductionHypothesis]
          by_cases same : key = Choice.key α
          · simp only [same, if_true, decide_true, Option.map_some, Given.choice?]
          · simp only [same, if_false, Option.some.injEq, decide_false]

end Layer

/-!
## All layers
-/

section Stack

variable {surroundings : Surroundings}

theorem stated_layers {α : Type} [Choice α] {paths : List FilePath} {layers : List Entries}
    (loads : paths.mapM (Config.layer surroundings) = .ok layers) :
    layers.map (stated α) = paths.map fun path =>
      (surroundings.fileGives? (Choice.key α) path).map (Given.choice? α) := by
  induction paths generalizing layers with
  | nil =>
      cases loads
      rfl
  | cons path paths inductionHypothesis =>
      rw [List.mapM_cons] at loads
      rcases bind_eq_ok_iff.mp loads with ⟨layer, first, later⟩
      rcases bind_eq_ok_iff.mp later with ⟨others, rest, same⟩
      cases same
      rw [List.map_cons, List.map_cons, stated_layer first, inductionHypothesis rest]

theorem layers_isOk_iff {paths : List FilePath} :
    (Exists fun layers => paths.mapM (Config.layer surroundings) = .ok layers) ↔
      ∀ path ∈ paths, Exists fun entries => Config.layer surroundings path = .ok entries := by
  induction paths with
  | nil => exact ⟨fun _ => nofun, fun _ => ⟨[], rfl⟩⟩
  | cons path paths inductionHypothesis =>
      rw [List.forall_mem_cons, ← inductionHypothesis]
      simp only [List.mapM_cons, bind_eq_ok_iff]
      constructor
      · rintro ⟨_, layer, first, others, rest, _⟩
        exact ⟨⟨layer, first⟩, others, rest⟩
      · rintro ⟨⟨layer, first⟩, others, rest⟩
        exact ⟨_, layer, first, others, rest, rfl⟩

/-- All layers together say what the highest of them gives. -/
theorem stated_all {α : Type} [Choice α] {explicit : Option FilePath} {layers : List Entries}
    (loads : (surroundings.settingsFiles explicit).mapM (Config.layer surroundings) =
      .ok layers) :
    stated α (Config.stacked (layers ++ [Config.environmentLayer surroundings.environment])) =
      (surroundings.given? explicit (Choice.key α)).map (Given.choice? α) := by
  have files : layers.reverse.findSome? (stated α) =
      ((surroundings.settingsFiles explicit).reverse.findSome?
        (surroundings.fileGives? (Choice.key α))).map (Given.choice? α) := by
    rw [List.map_findSome?]
    have each := congrArg (fun said => said.reverse.findSome? fun one => one)
      (stated_layers (α := α) loads)
    simp only [← List.map_reverse, List.findSome?_map] at each
    exact each
  rw [stated_stacked, List.reverse_append, List.reverse_singleton, List.singleton_append,
    List.findSome?_cons, files, stated_environmentLayer, Surroundings.given?, Option.map_or]
  cases (surroundings.variableGives? (Choice.key α)).map (Given.choice? α) <;> rfl

theorem checkExplicit_eq_ok_iff {explicit : Option FilePath} :
    Config.checkExplicit surroundings explicit = .ok () ↔
      surroundings.ExplicitThere explicit := by
  unfold Config.checkExplicit Surroundings.ExplicitThere
  cases explicit with
  | none => exact ⟨fun _ => nofun, fun _ => rfl⟩
  | some path =>
      simp only [Option.mem_def, Option.some.injEq, forall_eq']
      cases (surroundings.lookup path).isPresent with
      | false => exact ⟨nofun, nofun⟩
      | true => exact ⟨fun _ => rfl, fun _ => rfl⟩

theorem ofEntries_eq_ok_iff {entries : Entries} {config : Config} :
    Config.ofEntries entries = .ok config ↔
      Config.chosen Format entries = .ok config.format ∧
        Config.chosen ColourChoice entries = .ok config.colour := by
  unfold Config.ofEntries
  simp only [bind_eq_ok_iff]
  constructor
  · rintro ⟨colour, isColour, format, isFormat, same⟩
    cases same
    exact ⟨isFormat, isColour⟩
  · rintro ⟨isFormat, isColour⟩
    exact ⟨_, isColour, _, isFormat, rfl⟩

/-- What a layer is asked for comes to a choice. -/
theorem chosen_all_iff {α : Type} [Choice α] {explicit : Option FilePath}
    {layers : List Entries} {choice : α}
    (loads : (surroundings.settingsFiles explicit).mapM (Config.layer surroundings) =
      .ok layers) :
    Config.chosen α (Config.stacked
        (layers ++ [Config.environmentLayer surroundings.environment])) = .ok choice ↔
      surroundings.effective? α explicit = some choice := by
  rw [Config.chosen_eq_ok_iff, stated_all loads, Surroundings.effective?]
  cases surroundings.given? explicit (Choice.key α) <;> rfl

/-- A configuration is loaded just when the file that is named is there, every
file that is read is a settings file, and the layers come to choices. -/
theorem load_eq_ok_iff {explicit : Option FilePath} {config : Config} :
    Config.load surroundings explicit = .ok config ↔
      surroundings.ExplicitThere explicit ∧ surroundings.FilesHold explicit ∧
        surroundings.effective? Format explicit = some config.format ∧
        surroundings.effective? ColourChoice explicit = some config.colour := by
  unfold Config.load Surroundings.FilesHold
  simp only [← layer_isOk_iff, ← layers_isOk_iff, ← checkExplicit_eq_ok_iff, bind_eq_ok_iff,
    mapError_eq_ok_iff, ofEntries_eq_ok_iff]
  constructor
  · rintro ⟨_, there, layers, loads, chosen⟩
    exact ⟨there, ⟨layers, loads⟩, (chosen_all_iff loads).mp chosen.1,
      (chosen_all_iff loads).mp chosen.2⟩
  · rintro ⟨there, ⟨layers, loads⟩, format, colour⟩
    exact ⟨(), there, layers, loads, (chosen_all_iff loads).mpr format,
      (chosen_all_iff loads).mpr colour⟩

end Stack
end Settings
end RepoInspector
