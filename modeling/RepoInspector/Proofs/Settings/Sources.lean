import RepoInspector.Proofs.Settings.Config

namespace RepoInspector
namespace Settings

/-!
# The names of files in data

Data carries the name by which its file is shown, for reports only.  Nothing
that is done with data looks at the name: taken out of data first or out of
what has become of it, the names leave the same.
-/

/-- A source without the name of its file. -/
def Source.unnamed : Source -> Source
  | .file _ => .file ""
  | .environment => .environment

namespace Datum

mutual

/-- Data without the names of files. -/
def unnamed : Datum -> Datum
  | .scalar source value => .scalar source.unnamed value
  | .sequence source => .sequence source.unnamed
  | .map source entries => .map source.unnamed (unnamedEntries entries)

def unnamedEntries : List (String × Datum) -> List (String × Datum)
  | [] => []
  | (name, datum) :: entries => (name, datum.unnamed) :: unnamedEntries entries

end

theorem unnamedEntries_eq_map (entries : List (String × Datum)) :
    unnamedEntries entries = entries.map fun entry => (entry.1, entry.2.unnamed) := by
  induction entries with
  | nil => rw [unnamedEntries]; rfl
  | cons entry entries inductionHypothesis =>
      rw [unnamedEntries, inductionHypothesis]
      rfl

theorem source_unnamed (datum : Datum) : datum.unnamed.source = datum.source.unnamed := by
  cases datum <;> rw [unnamed] <;> rfl

theorem found_unnamed (datum : Datum) : datum.unnamed.found = datum.found := by
  cases datum <;> rw [unnamed] <;> rfl

theorem unnamedEntries_insertWith {combine later : Datum -> Datum}
    (kept : forall datum, (combine datum).unnamed = later datum.unnamed) (name : String)
    (datum : Datum) (entries : List (String × Datum)) :
    unnamedEntries (insertWith combine name datum entries) =
      insertWith later name datum.unnamed (unnamedEntries entries) := by
  induction entries with
  | nil => simp only [insertWith, unnamedEntries]
  | cons entry entries inductionHypothesis =>
      rw [insertWith, unnamedEntries, insertWith]
      split
      case isTrue => rw [unnamedEntries, unnamedEntries]
      case isFalse =>
        split
        case isTrue => rw [unnamedEntries, kept]
        case isFalse => rw [unnamedEntries, inductionHypothesis]

mutual

theorem unnamed_cover (upper lower : Datum) :
    (upper.cover lower).unnamed = upper.unnamed.cover lower.unnamed := by
  match upper, lower with
  | .map source upper, .map _ lower =>
      rw [cover, unnamed, unnamed, unnamed, cover, unnamed_coverEntries upper lower]
  | .map source upper, .scalar _ _ | .map source upper, .sequence _ =>
      simp only [cover, unnamed]
  | .scalar _ _, lower | .sequence _, lower => simp only [cover, unnamed]

theorem unnamed_coverEntries (upper lower : List (String × Datum)) :
    unnamedEntries (coverEntries upper lower) =
      coverEntries (unnamedEntries upper) (unnamedEntries lower) := by
  match upper with
  | [] => rw [coverEntries, unnamedEntries, coverEntries]
  | (name, datum) :: upper =>
      rw [coverEntries, unnamedEntries, coverEntries,
        unnamedEntries_insertWith fun below => unnamed_cover datum below,
        unnamed_coverEntries upper lower]

end

theorem unnamed_foldl (entries lower : List (String × Datum)) :
    unnamedEntries (entries.foldl (fun lower entry => coverEntries [entry] lower) lower) =
      (unnamedEntries entries).foldl (fun lower entry => coverEntries [entry] lower)
        (unnamedEntries lower) := by
  induction entries generalizing lower with
  | nil => rw [unnamedEntries]; rfl
  | cons entry entries inductionHypothesis =>
      rw [List.foldl_cons, inductionHypothesis, unnamed_coverEntries, unnamedEntries,
        unnamedEntries, unnamedEntries]
      rfl

theorem unnamed_layered (entries : List (String × Datum)) :
    unnamedEntries (layered entries) = layered (unnamedEntries entries) := by
  have folded := unnamed_foldl entries []
  rw [unnamedEntries.eq_1] at folded
  exact folded

mutual

theorem unnamed_ofValue (shown : String) (value : Toml.Value) :
    (ofValue (.file shown) value).unnamed = ofValue (.file "") value := by
  match value with
  | .text _ | .integer _ | .float _ | .boolean _ | .array _ =>
      simp only [ofValue, unnamed, Source.unnamed]
  | .moment => simp only [ofValue, unnamed, unnamedEntries, Source.unnamed]
  | .table entries =>
      rw [ofValue, unnamed, unnamed_layered, unnamed_ofEntries shown entries, ofValue]
      rfl

theorem unnamed_ofEntries (shown : String) (entries : List (String × Toml.Value)) :
    unnamedEntries (ofEntries (.file shown) entries) = ofEntries (.file "") entries := by
  match entries with
  | [] => simp only [ofEntries, unnamedEntries]
  | (name, value) :: entries =>
      rw [ofEntries, unnamedEntries, unnamed_ofValue shown value, unnamed_ofEntries shown entries,
        ofEntries]

end

end Datum

/-!
## Faults without names
-/

def ValueFault.unnamed (fault : ValueFault) : ValueFault :=
  { fault with source := fault.source.unnamed }

/-- A fault without the name of the file that it is met in. -/
def Fault.unnamed : Fault -> Fault
  | .missing path => .missing path
  | .file _ fault => .file "" fault
  | .value fault => .value fault.unnamed

theorem mapError_bind {ε κ α β : Type} (result : Except ε α) (next : α -> Except ε β)
    (f : ε -> κ) :
    (result >>= next).mapError f = (result.mapError f >>= fun a => (next a).mapError f) := by
  cases result <;> rfl

namespace Config

section Choices

variable {α : Type} [Choice α]

theorem ofName_unnamed (source : Source) (key : List String) (name : String) :
    (ofName source key name : Except ValueFault α).mapError ValueFault.unnamed =
      ofName source.unnamed key name := by
  unfold ofName
  cases Choice.ofName? (α := α) name <;> rfl

theorem choose_unnamed (datum : Datum) :
    (choose datum : Except ValueFault α).mapError ValueFault.unnamed = choose datum.unnamed := by
  match datum with
  | .scalar source (.text name) =>
      rw [Datum.unnamed]
      exact ofName_unnamed source _ name
  | .scalar _ (.character _) | .scalar _ (.boolean _) | .scalar _ (.natural _)
  | .scalar _ (.integer _) | .scalar _ (.float _) | .sequence _ =>
      rw [Datum.unnamed]
      rfl
  | .map _ [] =>
      rw [Datum.unnamed, Datum.unnamedEntries]
      rfl
  | .map source ((name, detail) :: entries) =>
      rw [Datum.unnamed, Datum.unnamedEntries, choose, choose, mapError_bind, ofName_unnamed,
        detail.source_unnamed, detail.found_unnamed]
      rfl

theorem chosen_unnamed (entries : Entries) :
    (chosen α entries).mapError ValueFault.unnamed = chosen α (Datum.unnamedEntries entries) := by
  unfold chosen
  rw [Datum.unnamedEntries_eq_map, List.find?_map]
  simp only [Function.comp_def]
  cases entries.find? fun entry => entry.1 = Choice.key α with
  | none => rfl
  | some entry => exact choose_unnamed entry.2

end Choices

theorem ofEntries_unnamed (entries : Entries) :
    (ofEntries entries).mapError ValueFault.unnamed =
      ofEntries (Datum.unnamedEntries entries) := by
  unfold ofEntries
  simp only [mapError_bind, chosen_unnamed]
  rfl

theorem stacked_unnamed (layers : List Entries) :
    Datum.unnamedEntries (stacked layers) = stacked (layers.map Datum.unnamedEntries) := by
  have folded : forall lower : Entries, Datum.unnamedEntries
        (layers.foldl (fun lower upper => Datum.coverEntries upper lower) lower) =
      (layers.map Datum.unnamedEntries).foldl
        (fun lower upper => Datum.coverEntries upper lower) (Datum.unnamedEntries lower) := by
    induction layers with
    | nil => exact fun _ => rfl
    | cons layer layers inductionHypothesis =>
        intro lower
        rw [List.foldl_cons, inductionHypothesis, Datum.unnamed_coverEntries]
        rfl
  have whole := folded []
  rw [Datum.unnamedEntries.eq_1] at whole
  exact whole

theorem fileEntries_unnamed (shown : String) (bytes : List UInt8) :
    (fileEntries shown bytes).map Datum.unnamedEntries = fileEntries "" bytes := by
  unfold fileEntries
  cases String.fromUTF8? bytes.toByteArray with
  | none => rfl
  | some text =>
      simp only
      cases Toml.ofText text with
      | error place => rfl
      | ok settings =>
          refine congrArg Except.ok ?_
          rw [Datum.unnamed_layered, Datum.unnamed_ofEntries]

/-- A layer without the names of files. -/
def unnamedLayer (surroundings : Surroundings) (path : Files.FilePath) : Except Fault Entries :=
  ((layer surroundings path).map Datum.unnamedEntries).mapError Fault.unnamed

theorem mapM_unnamed (surroundings : Surroundings) (paths : List Files.FilePath) :
    ((paths.mapM (layer surroundings)).map (List.map Datum.unnamedEntries)).mapError
        Fault.unnamed = paths.mapM (unnamedLayer surroundings) := by
  induction paths with
  | nil => rfl
  | cons path paths inductionHypothesis =>
      rw [List.mapM_cons, List.mapM_cons, ← inductionHypothesis, unnamedLayer]
      cases layer surroundings path with
      | error => rfl
      | ok layer => cases paths.mapM (Config.layer surroundings) <;> rfl

/-- Without the names of files, a configuration is loaded from layers without them. -/
theorem load_unnamed (surroundings : Surroundings) :
    (load surroundings none).mapError Fault.unnamed =
      (do
        let layers ← (surroundings.settingsFiles none).mapM (unnamedLayer surroundings)
        let environment := Datum.unnamedEntries (environmentLayer surroundings.environment)
        (ofEntries (stacked (layers ++ [environment]))).mapError Fault.value) := by
  change (((surroundings.settingsFiles none).mapM (layer surroundings)) >>= fun layers =>
    (ofEntries (stacked (layers ++ [environmentLayer surroundings.environment]))).mapError
      Fault.value).mapError Fault.unnamed = _
  rw [mapError_bind, ← mapM_unnamed]
  cases (surroundings.settingsFiles none).mapM (layer surroundings) with
  | error fault => rfl
  | ok layers =>
      have joined : layers.map Datum.unnamedEntries ++
          [Datum.unnamedEntries (environmentLayer surroundings.environment)] =
            (layers ++ [environmentLayer surroundings.environment]).map Datum.unnamedEntries := by
        rw [List.map_append, List.map_singleton]
      change ((ofEntries (stacked (layers ++ [_]))).mapError Fault.value).mapError Fault.unnamed =
        (ofEntries (stacked (layers.map Datum.unnamedEntries ++ [_]))).mapError Fault.value
      rw [joined, ← stacked_unnamed, ← ofEntries_unnamed]
      cases ofEntries (stacked (layers ++ [environmentLayer surroundings.environment])) <;> rfl

end Config

end Settings
end RepoInspector
