import RepoInspector.Proofs.Json.Form
import RepoInspector.Settings.Config

namespace RepoInspector
namespace Settings

open Files

/-!
# What layers say about a choice

Of the data under a key a configuration takes only the choice that it makes.
Laid over other data, data keeps making the choice that it makes alone, or
none: maps are joined, but no map makes a choice.  So of several layers the
highest one that has the key decides, and it decides alone.
-/

section Choices

variable {α : Type} [Choice α]

/-- The choice that data makes, if it makes one. -/
def Datum.choice? (α : Type) [Choice α] : Datum -> Option α
  | .scalar _ (.text name) => Choice.ofName? name
  | _ => none

theorem Config.ofName_eq_ok_iff {source : Source} {key : List String} {name : String}
    {choice : α} : ofName source key name = .ok choice ↔ Choice.ofName? name = some choice := by
  unfold ofName
  cases Choice.ofName? (α := α) name with
  | none => exact ⟨nofun, nofun⟩
  | some found => rw [Except.ok.injEq, Option.some.injEq]

theorem Config.choose_eq_ok_iff {datum : Datum} {choice : α} :
    choose datum = .ok choice ↔ datum.choice? α = some choice := by
  match datum with
  | .scalar _ (.text name) => exact ofName_eq_ok_iff
  | .scalar _ (.character _) | .scalar _ (.boolean _) | .scalar _ (.natural _)
  | .scalar _ (.integer _) | .scalar _ (.float _) | .sequence _ | .map _ [] =>
      exact ⟨nofun, nofun⟩
  | .map source ((name, detail) :: entries) =>
      refine ⟨fun chosen => ?_, nofun⟩
      rcases bind_eq_ok_iff.mp chosen with ⟨_, _, refused⟩
      cases refused

/-- What lies below does not change which choice is made. -/
theorem Datum.choice?_cover (upper lower : Datum) :
    (upper.cover lower).choice? α = upper.choice? α := by
  cases upper with
  | map source entries => cases lower <;> simp only [cover, choice?]
  | scalar | sequence => simp only [cover]

/-- What entries say about a choice: nothing without its key, and otherwise the
choice that is made under it, if any. -/
def stated (α : Type) [Choice α] (entries : Entries) : Option (Option α) :=
  (entries.find? fun entry => entry.1 = Choice.key α).map fun entry => entry.2.choice? α

theorem stated_cons (entry : String × Datum) (entries : Entries) :
    stated α (entry :: entries) =
      if entry.1 = Choice.key α then some (entry.2.choice? α) else stated α entries := by
  by_cases same : entry.1 = Choice.key α <;> simp [stated, same]

theorem Config.chosen_eq_ok_iff {entries : Entries} {choice : α} :
    chosen α entries = .ok choice ↔
      (stated α entries).getD (some Choice.default) = some choice := by
  unfold chosen stated
  cases entries.find? fun entry => entry.1 = Choice.key α with
  | none => simp only [Except.ok.injEq, Option.map_none, Option.getD_none, Option.some.injEq]
  | some entry => exact choose_eq_ok_iff

/-!
## Layers over each other
-/

/-- Combined data says what the new data says. -/
theorem stated_insertWith {combine : Datum -> Datum} {name : String} {datum : Datum}
    (kept : forall lower, (combine lower).choice? α = datum.choice? α) (entries : Entries) :
    stated α (Datum.insertWith combine name datum entries) = stated α ((name, datum) :: entries) := by
  induction entries with
  | nil => rfl
  | cons entry entries inductionHypothesis =>
      rw [Datum.insertWith]
      split
      case isTrue => rfl
      case isFalse =>
        split
        case isTrue same =>
          subst same
          rw [stated_cons, stated_cons, stated_cons, kept]
          split <;> rfl
        case isFalse different =>
          rw [stated_cons, inductionHypothesis, stated_cons, stated_cons, stated_cons]
          by_cases isKey : name = Choice.key α
          · rw [if_pos isKey, if_pos isKey, if_neg fun same => different (isKey.trans same.symm)]
          · rw [if_neg isKey, if_neg isKey]

theorem stated_coverEntries (upper lower : Entries) :
    stated α (Datum.coverEntries upper lower) = (stated α upper).or (stated α lower) := by
  induction upper with
  | nil => rw [Datum.coverEntries]; rfl
  | cons entry upper inductionHypothesis =>
      rcases entry with ⟨name, datum⟩
      rw [Datum.coverEntries, stated_insertWith fun below => datum.choice?_cover below, stated_cons,
        stated_cons, inductionHypothesis]
      split <;> rfl

/-- Laid over each other from the bottom up, the last that says anything counts. -/
theorem stated_foldl {ι : Type} (layer : ι -> Entries) (items : List ι) (lower : Entries) :
    stated α (items.foldl (fun lower item => Datum.coverEntries (layer item) lower) lower) =
      (items.reverse.findSome? fun item => stated α (layer item)).or (stated α lower) := by
  induction items generalizing lower with
  | nil => rfl
  | cons item items inductionHypothesis =>
      rw [List.foldl_cons, inductionHypothesis, stated_coverEntries, List.reverse_cons,
        List.findSome?_append, List.findSome?_singleton, Option.or_assoc]

/-- Of several layers the highest that says anything counts. -/
theorem stated_stacked (layers : List Entries) :
    stated α (Config.stacked layers) = layers.reverse.findSome? (stated α) :=
  (stated_foldl (fun layer => layer) layers []).trans Option.or_none

theorem stated_eq_findSome? (entries : Entries) :
    stated α entries = entries.findSome? fun entry => stated α [entry] := by
  induction entries with
  | nil => rfl
  | cons entry entries inductionHypothesis =>
      rw [List.findSome?_cons, ← inductionHypothesis, stated_cons, stated_cons]
      split <;> rfl

/-- Of entries with one name the last one counts. -/
theorem stated_layered (entries : Entries) :
    stated α (Datum.layered entries) = stated α entries.reverse :=
  ((stated_foldl (fun entry => [entry]) entries []).trans Option.or_none).trans
    (stated_eq_findSome? entries.reverse).symm

end Choices
end Settings
end RepoInspector
