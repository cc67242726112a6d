import RepoInspector.Proofs.Json.Changes
import RepoInspector.Proofs.Record.Laws

namespace RepoInspector
namespace Record

open Json

/-!
# Records of changed documents

What entries tell a record is local to its fields: it depends on no order, on
no entry that is named after none of the fields, and on an entry of a field
only through what it means to that field.  A record that extends another one
is local to the fields of both.  From this alone it follows how a document can
be changed without a change of the record that is read from it.
-/

/-- Two items mean the same to the fields of a name. -/
def SameUnder (fields : List Field) (name : String) (item other : Form) : Prop :=
  ∀ field ∈ fields, field.name = name ->
    forall stored : field.Stored, field.Means item stored ↔ field.Means other stored

/-- What entries tell is local to the fields. -/
structure Local {α : Type} (fields : List Field)
    (told : List (String × Form) -> α -> Prop) : Prop where
  perm : forall {entries others : List (String × Form)} {a : α}, entries.Perm others ->
    (told entries a ↔ told others a)
  added : forall {before after : List (String × Form)} {name : String} {item : Form} {a : α},
    name ∉ names fields ->
      (told (before ++ (name, item) :: after) a ↔ told (before ++ after) a)
  changed : forall {before after : List (String × Form)} {name : String} {item other : Form}
    {a : α}, SameUnder fields name item other ->
      (told (before ++ (name, item) :: after) a ↔ told (before ++ (name, other) :: after) a)

section Rows

variable {ι : Type}

/-- What a field stores does not depend on the order of its items: there is at
most one. -/
theorem stores_perm {σ : Type} {absent : Option σ} {tells : ι -> σ -> Prop}
    {items others : List ι} (permuted : items.Perm others) {stored : σ} :
    Stores absent tells items stored ↔ Stores absent tells others stored := by
  match items, others, permuted with
  | [], others, permuted =>
      cases permuted.nil_eq
      exact Iff.rfl
  | [item], others, permuted =>
      cases permuted.singleton_eq
      exact Iff.rfl
  | first :: second :: items, others, permuted =>
      match others, permuted.length_eq with
      | _ :: _ :: _, _ => exact Iff.rfl

theorem Row.told_perm {tells : (field : Field) -> ι -> field.Stored -> Prop} {fields : List Field}
    {members others : List (String × ι)} (permuted : members.Perm others) (row : Row fields) :
    Row.Told tells members row ↔ Row.Told tells others row := by
  induction fields with
  | nil => exact Iff.rfl
  | cons field fields inductionHypothesis =>
      rcases row with ⟨stored, row⟩
      rw [Row.Told, Row.Told, stores_perm (named_perm permuted field.name), inductionHypothesis]

theorem named_around (name : String) (before after : List (String × ι)) (other : String)
    (item : ι) :
    named name (before ++ (other, item) :: after) =
      named name before ++ (named name [(other, item)] ++ named name after) := by
  rw [List.append_cons, named_append, named_append, List.append_assoc]

/-- An exchanged item stands at the same place among those of its name. -/
theorem named_exchanged {related : ι -> ι -> Prop} (same : forall item, related item item)
    {known name : String} {before after : List (String × ι)} {item other : ι}
    (exchanged : name = known -> related item other) :
    List.Forall₂ related (named known (before ++ (name, item) :: after))
      (named known (before ++ (name, other) :: after)) := by
  have around : forall items : List ι, List.Forall₂ related items items :=
    fun items => List.forall₂_same.mpr fun item _ => same item
  rw [named_around, named_around]
  refine List.rel_append (around _) (List.rel_append ?_ (around _))
  by_cases isNamed : name = known
  · subst isNamed
    rw [named_cons_self, named_cons_self]
    exact .cons (exchanged rfl) .nil
  · rw [named_cons_of_ne isNamed, named_cons_of_ne isNamed]
    exact .nil

/-- What entries tell a row is local to its fields. -/
theorem Row.told_local (fields : List Field) :
    Local fields fun entries (row : Row fields) => Row.Told Field.Means entries row where
  perm permuted := Row.told_perm permuted _
  added := by
    intro before after name item row unknown
    apply Row.told_of_named
    intro known listed
    have different : name ≠ known := fun same => unknown (same ▸ listed)
    rw [named_around, named_cons_of_ne different, named_nil, List.nil_append, named_append]
  changed := by
    intro before after name item other row same
    apply Row.told_congr
    intro field listed
    exact named_exchanged (fun _ _ => Iff.rfl) fun isField => same field listed isField.symm

end Rows

section Combined

variable {α β : Type} {fields innerFields : List Field}

theorem Local.congr {told : List (String × Form) -> α -> Prop}
    {other : List (String × Form) -> β -> Prop} {back : β -> α} (isLocal : Local fields told)
    (same : forall entries b, told entries (back b) ↔ other entries b) : Local fields other where
  perm permuted := by
    rw [← same, ← same]
    exact isLocal.perm permuted
  added unknown := by
    rw [← same, ← same]
    exact isLocal.added unknown
  changed sameUnder := by
    rw [← same, ← same]
    exact isLocal.changed sameUnder

/-- What entries tell a record that extends another one is local to the fields
of both. -/
theorem Local.extended {innerMeans : List (String × Form) -> β -> Prop}
    (inner : Local innerFields innerMeans) :
    Local (fields ++ innerFields) (ExtendedTold fields innerMeans) where
  perm permuted :=
    and_congr ((Row.told_local fields).perm permuted) (inner.perm (permuted.filter _))
  added := by
    intro before after name item data unknown
    rw [names, List.map_append, List.mem_append, not_or] at unknown
    refine and_congr ((Row.told_local fields).added unknown.1) ?_
    rw [others, List.filter_append, ← others, ← others, others_cons_unknown unknown.1,
      inner.added unknown.2, others, others, ← List.filter_append, ← others]
  changed := by
    intro before after name item other data same
    have outerSame : SameUnder fields name item other := fun field listed =>
      same field (List.mem_append_left _ listed)
    refine and_congr ((Row.told_local fields).changed outerSame) ?_
    have split : forall form, others fields (before ++ (name, form) :: after) =
        others fields before ++ others fields ((name, form) :: after) :=
      fun form => List.filter_append _ _
    rw [split, split]
    by_cases known : name ∈ names fields
    · rw [others_cons_known known, others_cons_known known]
    · rw [others_cons_unknown known, others_cons_unknown known]
      exact inner.changed fun field listed => same field (List.mem_append_right _ listed)

end Combined

/-- The entries that are not a layer's own are decoded. -/
def OthersDecode (ownNames : List String) (allowance : Nat)
    (entries : List (String × Form)) : Prop :=
  ∀ entry ∈ entries, entry.1 ∉ ownNames -> entry.2.Decodes allowance

theorem othersDecode_around_iff {ownNames : List String} {allowance : Nat}
    {left right : List (String × Form)} {name : String} {item : Form} :
    OthersDecode ownNames allowance (left ++ (name, item) :: right) ↔
      (name ∉ ownNames -> item.Decodes allowance) ∧
        OthersDecode ownNames allowance (left ++ right) := by
  rw [OthersDecode, OthersDecode, List.forall_mem_append, List.forall_mem_cons,
    List.forall_mem_append]
  exact and_left_comm

/-- What a form means as one of several layers that share an object: those of
its entries that are not the layer's own are decoded, and all of them tell it. -/
def Layered {α : Type} (ownNames : List String) (allowance : Nat)
    (told : List (String × Form) -> α -> Prop) (form : Form) (a : α) : Prop :=
  Exists fun members => Exists fun entries => form = .object members ∧
    Form.Keyed members entries ∧ OthersDecode ownNames allowance entries ∧ told entries a

/-- What a form means as a record that stands alone, in an object or in an
array. -/
def Listed {α : Type} (fieldNames : List String) (told : List (String × Form) -> α -> Prop)
    (form : Form) (a : α) : Prop :=
  Exists fun entries => Lists fieldNames form entries ∧ told entries a

section Objects

variable {α : Type} {told : List (String × Form) -> α -> Prop} {a : α}

theorem layered_object_iff {ownNames : List String} {allowance : Nat}
    {members : List (List Piece × Form)} :
    Layered ownNames allowance told (.object members) a ↔
      Exists fun entries => Form.Keyed members entries ∧
        OthersDecode ownNames allowance entries ∧ told entries a := by
  constructor
  · intro given
    rcases given with ⟨_, entries, same, keyed, asked⟩
    cases same
    exact ⟨entries, keyed, asked⟩
  · intro given
    rcases given with ⟨entries, keyed, asked⟩
    exact ⟨members, entries, rfl, keyed, asked⟩

theorem listed_object_iff {fieldNames : List String} {members : List (List Piece × Form)} :
    Listed fieldNames told (.object members) a ↔
      Exists fun entries => Form.Keyed members entries ∧ told entries a := by
  constructor
  · intro given
    rcases given with ⟨entries, lists, isTold⟩
    cases lists with
    | object keyed => exact ⟨entries, keyed, isTold⟩
  · intro given
    rcases given with ⟨entries, keyed, isTold⟩
    exact ⟨entries, .object keyed, isTold⟩

end Objects

/-!
## The order of members
-/

section Order

variable {α β : Type} {means : Form -> α -> Prop} {fields : List Field}

/-- What forms mean does not depend on the order of members. -/
structure Orderless (means : Form -> α -> Prop) : Prop where
  same : forall {form other : Form} {a : α}, form.Reordered other ->
    (means form a ↔ means other a)

theorem Orderless.of_imp (kept : forall {form other : Form} {a : α},
    form.Reordered other -> means form a -> means other a) : Orderless means where
  same reordered := ⟨kept reordered, kept reordered.symm⟩

/-- What only scalars mean does not depend on the order of members. -/
theorem Orderless.of_scalar (noArray : forall items a, ¬ means (.array items) a)
    (noObject : forall members a, ¬ means (.object members) a) : Orderless means := by
  apply Orderless.of_imp
  intro form other a reordered meant
  induction reordered with
  | refl => exact meant
  | trans _ _ first second => exact second (first meant)
  | item => exact absurd meant (noArray _ _)
  | permuted | member => exact absurd meant (noObject _ _)

/-- Forms that mean the same, and are null only together, mean the same where null
stands for nothing. -/
theorem optionalMeans_congr {form other : Form} (null_iff : form = .null ↔ other = .null)
    (same : forall a, means form a ↔ means other a) (data : Option α) :
    Codec.OptionalMeans means form data ↔ Codec.OptionalMeans means other data := by
  apply or_congr (and_congr_left' null_iff)
  apply and_congr (not_congr null_iff)
  exact exists_congr fun a => and_congr_left' (same a)

theorem Orderless.optional (orderless : Orderless means) :
    Orderless (Codec.OptionalMeans means) where
  same reordered := optionalMeans_congr reordered.null_iff (fun _ => orderless.same reordered) _

/-- A codec that finds what does not depend on the order of members. -/
theorem Orderless.codec {codec : Codec α} {depth : Nat} (orderless : Orderless means)
    (follows : codec.Follows depth means) (shallow : depth ≤ nestingAllowance) :
    Orderless codec.Means where
  same reordered := by
    rw [follows.means_iff shallow, follows.means_iff shallow]
    exact orderless.same reordered

/-- No field depends on the order of members inside of it. -/
def OrderlessFields (fields : List Field) : Prop :=
  ∀ field ∈ fields, Orderless field.Means

theorem OrderlessFields.nil : OrderlessFields [] := fun _ => (nomatch ·)

theorem OrderlessFields.cons {field : Field} (first : Orderless field.Means)
    (rest : OrderlessFields fields) : OrderlessFields (field :: fields) :=
  List.forall_mem_cons.mpr ⟨first, rest⟩

theorem OrderlessFields.sameUnder (orderless : OrderlessFields fields) (name : String)
    {form other : Form} (reordered : form.Reordered other) : SameUnder fields name form other :=
  fun field listed _ _ => (orderless field listed).same reordered

/-- The item that stands for a field has the field's name, whatever it is. -/
theorem zip_placed {fieldNames : List String} {before after : List Form} {name : String}
    (placed : fieldNames[before.length]? = some name) :
    Exists fun left => Exists fun right => forall item : Form,
      fieldNames.zip (before ++ item :: after) = left ++ (name, item) :: right := by
  induction before generalizing fieldNames with
  | nil =>
      cases fieldNames with
      | nil => cases placed
      | cons first fieldNames =>
          cases placed
          exact ⟨[], fieldNames.zip after, fun _ => rfl⟩
  | cons item before inductionHypothesis =>
      cases fieldNames with
      | nil => cases placed
      | cons first fieldNames =>
          rcases inductionHypothesis placed with ⟨left, right, split⟩
          refine ⟨(first, item) :: left, right, fun other => ?_⟩
          rw [List.cons_append, List.zip_cons_cons, split, List.cons_append]

theorem listed_array_iff {told : List (String × Form) -> α -> Prop} {fieldNames : List String}
    {items : List Form} {a : α} :
    Listed fieldNames told (.array items) a ↔
      items.length ≤ fieldNames.length ∧ told (fieldNames.zip items) a := by
  constructor
  · intro given
    rcases given with ⟨entries, lists, isTold⟩
    cases lists with
    | array fits => exact ⟨fits, isTold⟩
  · intro given
    rcases given with ⟨fits, isTold⟩
    exact ⟨_, .array fits, isTold⟩

/-- A record does not depend on the order of members: not of its own, and not
of those inside its items. -/
theorem Orderless.listed {told : List (String × Form) -> α -> Prop} (isLocal : Local fields told)
    (orderless : OrderlessFields fields) : Orderless (Listed (names fields) told) := by
  apply Orderless.of_imp
  intro form other a reordered given
  induction reordered with
  | refl => exact given
  | trans _ _ first second => exact second (first given)
  | permuted permuted =>
      rcases given with ⟨entries, lists, isTold⟩
      cases lists with
      | object keyed =>
          rcases keyed.perm permuted with ⟨others, keyedOthers, permutedEntries⟩
          exact ⟨others, .object keyedOthers, (isLocal.perm permutedEntries).mp isTold⟩
  | @item before after item other inner =>
      rcases listed_array_iff.mp given with ⟨fits, isTold⟩
      have sameLength : (before ++ other :: after).length = (before ++ item :: after).length := by
        rw [List.length_append, List.length_append, List.length_cons, List.length_cons]
      have inside : before.length < (names fields).length := by
        rw [List.length_append, List.length_cons] at fits
        omega
      rcases zip_placed (List.getElem?_eq_getElem inside) with ⟨left, right, split⟩
      rw [split] at isTold
      rw [listed_array_iff, split, sameLength]
      exact ⟨fits, (isLocal.changed (orderless.sameUnder _ inner)).mp isTold⟩
  | member inner =>
      rw [listed_object_iff] at given ⊢
      exact (Form.exists_keyed_changed fun _ name _ _ =>
        isLocal.changed (orderless.sameUnder name inner)).mp given

theorem not_layered_array {told : List (String × Form) -> α -> Prop} {ownNames : List String}
    {allowance : Nat} {items : List Form} {a : α} :
    ¬ Layered ownNames allowance told (.array items) a := by
  intro given
  rcases given with ⟨members, entries, same, _⟩
  cases same

/-- A record that shares its object with others does not depend on the order of
members, whether they are told to it or decoded for the others. -/
theorem Orderless.layered {told : List (String × Form) -> α -> Prop} {ownNames : List String}
    {allowance : Nat} (isLocal : Local fields told) (orderless : OrderlessFields fields) :
    Orderless (Layered ownNames allowance told) := by
  apply Orderless.of_imp
  intro form other a reordered given
  induction reordered with
  | refl => exact given
  | trans _ _ first second => exact second (first given)
  | permuted permuted =>
      rcases given with ⟨members, entries, same, keyed, decode, isTold⟩
      cases same
      rcases keyed.perm permuted with ⟨others, keyedOthers, permutedEntries⟩
      refine ⟨_, others, rfl, keyedOthers, ?_, (isLocal.perm permutedEntries).mp isTold⟩
      exact fun entry listed => decode entry (permutedEntries.mem_iff.mpr listed)
  | item => exact absurd given not_layered_array
  | member inner =>
      rw [layered_object_iff] at given ⊢
      refine (Form.exists_keyed_changed fun _ name _ _ => ?_).mp given
      refine and_congr ?_ (isLocal.changed (orderless.sameUnder name inner))
      rw [othersDecode_around_iff, othersDecode_around_iff, inner.decodes_iff]

end Order

/-!
## Members that no field asks for
-/

section Unknown

variable {α : Type} {means : Form -> α -> Prop} {fields : List Field}
  {told : List (String × Form) -> α -> Prop} {name step : String} {path : List Form.Step}

/-- What forms mean does not change with a further member of this name in the
object at the end of this path, whatever its value. -/
structure Overlooks (name : String) (path : List Form.Step) (means : Form -> α -> Prop) : Prop where
  same : forall {value form grown : Form} {a : α}, Form.Adds name value path form grown ->
    (means form a ↔ means grown a)

theorem Overlooks.optional (overlooks : Overlooks name path means) :
    Overlooks name path (Codec.OptionalMeans means) where
  same adds := by
    rw [Codec.optionalMeans_other adds.ne_null.1, Codec.optionalMeans_other adds.ne_null.2]
    exact exists_congr fun a => and_congr_left fun _ => overlooks.same adds

theorem Overlooks.codec {codec : Codec α} {depth : Nat} (overlooks : Overlooks name path means)
    (follows : codec.Follows depth means) (shallow : depth ≤ nestingAllowance) :
    Overlooks name path codec.Means where
  same adds := by
    rw [follows.means_iff shallow, follows.means_iff shallow]
    exact overlooks.same adds

/-- Fields of one name overlook what is added to their items. -/
theorem Overlooks.sameUnder
    (overlook : ∀ field ∈ fields, field.name = step -> Overlooks name path field.Means)
    {value form grown : Form} (adds : Form.Adds name value path form grown) :
    SameUnder fields step form grown :=
  fun field listed named _ => (overlook field listed named).same adds

theorem Overlooks.listed_here (isLocal : Local fields told) (unknown : name ∉ names fields) :
    Overlooks name [] (Listed (names fields) told) where
  same adds := by
    cases adds with
    | here denoted =>
        rw [listed_object_iff, listed_object_iff]
        exact Form.exists_keyed_added denoted fun _ _ => (isLocal.added unknown).symm

theorem Overlooks.listed_member (isLocal : Local fields told)
    (overlook : ∀ field ∈ fields, field.name = step -> Overlooks name path field.Means) :
    Overlooks name (.member step :: path) (Listed (names fields) told) where
  same adds := by
    cases adds with
    | member denoted inner =>
        rw [listed_object_iff, listed_object_iff]
        exact Form.exists_keyed_changed_under denoted fun _ _ =>
          isLocal.changed (Overlooks.sameUnder overlook inner)

/-- An item of an array stands under the name of the field in its place. -/
theorem Overlooks.listed_item (isLocal : Local fields told) {index : Nat}
    (placed : (names fields)[index]? = some step)
    (overlook : ∀ field ∈ fields, field.name = step -> Overlooks name path field.Means) :
    Overlooks name (.item index :: path) (Listed (names fields) told) where
  same adds := by
    cases adds with
    | @item _ before after form grown inner =>
        rcases zip_placed placed with ⟨left, right, split⟩
        have sameLength : (before ++ grown :: after).length = (before ++ form :: after).length := by
          rw [List.length_append, List.length_append, List.length_cons, List.length_cons]
        rw [listed_array_iff, listed_array_iff, split, split, sameLength]
        exact and_congr_right fun _ => isLocal.changed (Overlooks.sameUnder overlook inner)

/-- A further member of an object that several layers share has to decode, and
is overlooked otherwise. -/
theorem layered_adds_here {ownNames : List String} {allowance : Nat} (isLocal : Local fields told)
    (unknown : name ∉ names fields) (notOwn : name ∉ ownNames) {value form grown : Form} {a : α}
    (adds : Form.Adds name value [] form grown) :
    Layered ownNames allowance told grown a ↔
      value.Decodes allowance ∧ Layered ownNames allowance told form a := by
  cases adds with
  | here denoted =>
      rw [layered_object_iff, layered_object_iff, ← exists_and_left]
      calc
        _ ↔ Exists fun entries => Form.Keyed _ entries ∧ value.Decodes allowance ∧
            OthersDecode ownNames allowance entries ∧ told entries a := by
          refine Iff.symm (Form.exists_keyed_added denoted fun left right => ?_)
          rw [isLocal.added unknown, othersDecode_around_iff, ← and_assoc]
          refine and_congr_left fun _ => and_congr_left fun _ => ?_
          exact ⟨fun decodes _ => decodes, fun decodes => decodes notOwn⟩
        _ ↔ _ := exists_congr fun _ => and_left_comm

/-- What is added inside of an own entry is overlooked when its field does. -/
theorem Overlooks.layered_own {ownNames : List String} {allowance : Nat}
    (isLocal : Local fields told)
    (overlook : ∀ field ∈ fields, field.name = step -> Overlooks name path field.Means)
    (own : step ∈ ownNames) :
    Overlooks name (.member step :: path) (Layered ownNames allowance told) where
  same adds := by
    cases adds with
    | member denoted inner =>
        rw [layered_object_iff, layered_object_iff]
        refine Form.exists_keyed_changed_under denoted fun _ _ => ?_
        refine and_congr ?_ (isLocal.changed (Overlooks.sameUnder overlook inner))
        rw [othersDecode_around_iff, othersDecode_around_iff]
        refine and_congr_left fun _ => ?_
        exact ⟨fun _ notOwn => absurd own notOwn, fun _ notOwn => absurd own notOwn⟩

/-- What is added inside of another entry has to decode, and is overlooked
otherwise. -/
theorem layered_adds_inside {ownNames : List String} {allowance : Nat}
    (isLocal : Local fields told)
    (overlook : ∀ field ∈ fields, field.name = step -> Overlooks name path field.Means)
    (notOwn : step ∉ ownNames) {value form grown : Form} {a b : α}
    (adds : Form.Adds name value (.member step :: path) form grown)
    (meant : Layered ownNames allowance told form b) :
    Layered ownNames allowance told grown a ↔
      value.Decodes (allowance - (path.length + 1)) ∧ Layered ownNames allowance told form a := by
  cases adds with
  | @member _ _ before after pieces form grown denoted inner =>
      have decodes : form.Decodes allowance := by
        rcases layered_object_iff.mp meant with ⟨_, keyed, decode, _⟩
        rcases Form.keyed_around_iff.mp keyed with ⟨left, _, right, rfl, _, again, _⟩
        cases denoted.symm.trans again
        exact decode (step, form) (List.mem_append_right _ List.mem_cons_self) notOwn
      rw [layered_object_iff, layered_object_iff, ← exists_and_left]
      calc
        _ ↔ Exists fun entries => Form.Keyed _ entries ∧
            value.Decodes (allowance - (path.length + 1)) ∧
            OthersDecode ownNames allowance entries ∧ told entries a := by
          refine Iff.symm (Form.exists_keyed_changed_under denoted fun _ _ => ?_)
          rw [isLocal.changed (Overlooks.sameUnder overlook inner), othersDecode_around_iff,
            othersDecode_around_iff, ← inner.decodes_iff decodes, ← and_assoc]
          refine and_congr_left fun _ => ?_
          constructor
          · exact fun given => ⟨fun _ => given.1, given.2.2⟩
          · exact fun given => ⟨given.1 notOwn, fun _ => decodes, given.2⟩
        _ ↔ _ := exists_congr fun _ => and_left_comm

end Unknown

end Record
end RepoInspector
