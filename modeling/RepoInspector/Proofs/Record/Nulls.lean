import RepoInspector.Proofs.Record.Alike

namespace RepoInspector
namespace Record

open Json

/-!
# Null in the place of nothing

A field may take null for what it stores when it is missing, or take no null at
all.  A record whose field takes it is told the same with and without a null
under that name, as long as nothing else stands under it.
-/

/-- A field takes null for what it stores when it is missing, if it takes it. -/
def Field.TakesNull (field : Field) (nullable : Bool) : Prop :=
  forall stored, field.Means .null stored ↔ nullable = true ∧ field.absent = some stored

section Fields

variable {α : Type} {name : String} {codec : Codec α} {depth : Nat} {means : Form -> α -> Prop}

theorem optional_takesNull (follows : codec.Follows depth means)
    (shallow : depth ≤ nestingAllowance) : (Field.optional name codec).TakesNull true := by
  intro data
  have means_iff : codec.optional.Means .null data ↔ data = none :=
    ((Codec.optional_follows follows).means_iff shallow).trans Codec.optionalMeans_null
  have absent_iff : some none = some data ↔ data = none :=
    (Option.some.injEq none data).to_iff.trans eq_comm
  exact means_iff.trans (absent_iff.symm.trans (and_iff_right rfl).symm)

theorem required_takesNull (follows : codec.Follows depth means)
    (shallow : depth ≤ nestingAllowance) (never : forall a, ¬ means .null a) :
    (Field.required name codec).TakesNull false :=
  fun a => iff_of_false (fun meant => never a ((follows.means_iff shallow).mp meant)) nofun

theorem defaulted_takesNull {default : α} (follows : codec.Follows depth means)
    (shallow : depth ≤ nestingAllowance) (never : forall a, ¬ means .null a) :
    (Field.defaulted name codec default).TakesNull false :=
  fun a => iff_of_false (fun meant => never a ((follows.means_iff shallow).mp meant)) nofun

end Fields

/-- The fields of these names take null, and no others. -/
def NullTable (optionalNames : List String) (fields : List Field) : Prop :=
  ∀ field ∈ fields, field.TakesNull (decide (field.name ∈ optionalNames))

theorem NullTable.nil {optionalNames : List String} : NullTable optionalNames [] :=
  fun _ => (nomatch ·)

theorem NullTable.cons {optionalNames : List String} {field : Field} {fields : List Field}
    (first : field.TakesNull (decide (field.name ∈ optionalNames)))
    (rest : NullTable optionalNames fields) : NullTable optionalNames (field :: fields) :=
  List.forall_mem_cons.mpr ⟨first, rest⟩

theorem NullTable.append {optionalNames : List String} {fields others : List Field}
    (first : NullTable optionalNames fields) (rest : NullTable optionalNames others) :
    NullTable optionalNames (fields ++ others) :=
  List.forall_mem_append.mpr ⟨first, rest⟩

/-- Only the names of the fields matter. -/
theorem NullTable.congr {optionalNames others : List String} {fields : List Field}
    (table : NullTable optionalNames fields)
    (same : ∀ name ∈ names fields, (name ∈ optionalNames ↔ name ∈ others)) :
    NullTable others fields := by
  intro field listed
  rw [← decide_eq_decide.mpr (same field.name (List.mem_map_of_mem listed))]
  exact table field listed

/-- What entries tell does not change with an item that means to its field what
the lack of it does. -/
structure Spares {α : Type} (fields : List Field)
    (told : List (String × Form) -> α -> Prop) : Prop where
  same : forall {before after : List (String × Form)} {name : String} {item : Form} {a : α},
    name ∉ (before ++ after).map Prod.fst ->
    (∀ field ∈ fields, field.name = name ->
      forall stored, field.Means item stored ↔ field.absent = some stored) ->
    (told (before ++ (name, item) :: after) a ↔ told (before ++ after) a)

section Sparing

variable {α β : Type} {fields innerFields : List Field}

theorem Row.told_spares (fields : List Field) :
    Spares fields fun entries (row : Row fields) => Row.Told Field.Means entries row where
  same := by
    intro before after name item row fresh vacant
    apply Row.told_of_stores
    intro field listed stored
    by_cases isField : name = field.name
    · subst isField
      have nothing : named field.name (before ++ after) = [] := named_eq_nil_iff.mpr fresh
      rw [named_append, List.append_eq_nil_iff] at nothing
      rw [named_around, named_append, nothing.1, nothing.2, named_cons_self]
      exact vacant field listed rfl stored
    · rw [named_around, named_cons_of_ne isField, named_nil, List.nil_append, named_append]

theorem Spares.congr {told : List (String × Form) -> α -> Prop}
    {other : List (String × Form) -> β -> Prop} {back : β -> α} (spares : Spares fields told)
    (same : forall entries b, told entries (back b) ↔ other entries b) : Spares fields other where
  same fresh vacant := by
    rw [← same, ← same]
    exact spares.same fresh vacant

theorem Spares.extended {innerMeans : List (String × Form) -> β -> Prop}
    (inner : Spares innerFields innerMeans) :
    Spares (fields ++ innerFields) (ExtendedTold fields innerMeans) where
  same := by
    intro before after name item data fresh vacant
    rw [List.forall_mem_append] at vacant
    apply and_congr ((Row.told_spares fields).same fresh vacant.1)
    rw [others, others, List.filter_append, List.filter_append, ← others, ← others, ← others]
    by_cases known : name ∈ names fields
    · rw [others_cons_known known]
    · rw [others_cons_unknown known]
      refine inner.same (fun listed => fresh ?_) vacant.2
      rw [others, others, ← List.filter_append] at listed
      exact (List.Sublist.map Prod.fst List.filter_sublist).subset listed

end Sparing

end Record
end RepoInspector
