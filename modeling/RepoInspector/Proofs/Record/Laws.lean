import RepoInspector.Proofs.Record.Reading

namespace RepoInspector
namespace Record

open Json

/-!
# The laws of records

A record whose fields have lawful codecs has a lawful codec, one container
deeper.  A record that extends another one is lawful where the whole allowance
is left, because what it hands to the inner record has been decoded within
that allowance.
-/

theorem refuseScalar_ne_ok {α : Type} {name : String} {token : Token} {a : α} :
    refuseScalar name token ≠ .ok a := by
  intro accepted
  rcases bind_eq_ok_iff.mp accepted with ⟨value, _, refused⟩
  cases refused

variable {fields : List Field} {depth : Nat}

theorem recordMeans_array (distinct : (names fields).Nodup) {items : List Form}
    {row : Row fields} :
    RecordMeans fields (.array items) row ↔ Row.Listed Field.Means items row := by
  rw [Row.listed_iff distinct]
  constructor
  · intro given
    rcases given with ⟨entries, lists, told⟩
    cases lists with
    | array fits => exact ⟨fits, told⟩
  · intro given
    rcases given with ⟨fits, told⟩
    exact ⟨_, .array fits, told⟩

theorem recordMeans_object {members : List (List Piece × Form)} {row : Row fields} :
    RecordMeans fields (.object members) row ↔
      Exists fun entries => Form.Keyed members entries ∧ Row.Told Field.Means entries row := by
  constructor
  · intro given
    rcases given with ⟨entries, lists, told⟩
    cases lists with
    | object keyed => exact ⟨entries, keyed, told⟩
  · intro given
    rcases given with ⟨entries, keyed, told⟩
    exact ⟨entries, .object keyed, told⟩

/-- Values that have the right items under each name tell a row what the
entries tell it. -/
theorem told_of_tells (lawful : LawfulFields fields depth) {route : Route}
    {entries : List (String × Form)} {values : List (String × Value)}
    (each : forall name, List.Forall₂ Form.Tells (named name entries) (named name values))
    (decode : ∀ entry ∈ entries, entry.2.Decodes nestingAllowance) (row : Row fields) :
    Row.Told (Interprets route) values row ↔ Row.Told Field.Means entries row := by
  refine (Row.told_congr (fun field listed => ?_) row).symm
  have decodes : ∀ form ∈ named field.name entries, form.Decodes nestingAllowance :=
    fun form isNamed => decode _ (mem_named.mp isNamed)
  have both := (List.forall₂_and_left _ _).mpr ⟨decodes, each field.name⟩
  apply both.imp
  intro form value tells stored
  exact ((lawful field listed).interprets tells.2 tells.1).symm

namespace Codec

theorem record_rejects {name : String} (lawful : LawfulFields fields depth) {node : Node}
    {allowance : Nat} {row : Row fields} (breaks : node.Breaks) :
    (record name fields).read allowance node ≠ .ok row := by
  intro accepted
  cases node with
  | leaf token => exact refuseScalar_ne_ok accepted
  | array start items ending =>
      cases allowance with
      | zero => cases accepted
      | succ allowance =>
          have whole := readItems_whole lawful accepted
          cases breaks with
          | arrayEnding broken => exact whole.1 broken
          | item listed broken => exact whole.2 _ listed broken
  | object start members ending =>
      cases allowance with
      | zero => cases accepted
      | succ allowance =>
          rcases bind_eq_ok_iff.mp accepted with ⟨result, isResult, done⟩
          rcases bind_eq_ok_iff.mp done with ⟨_, ended, _⟩
          exact readMembers_breaks lawful isResult ended breaks

theorem record_reads {name : String} (lawful : LawfulFields fields depth)
    (distinct : (names fields).Nodup) {node : Node} {form : Form} {allowance : Nat}
    {row : Row fields} (holds : node.Holds form) (deep : depth ≤ allowance)
    (within : allowance ≤ nestingAllowance) :
    (record name fields).read (allowance + 1) node = .ok row ↔ RecordMeans fields form row := by
  cases holds with
  | leaf scalar =>
      constructor
      · exact fun accepted => absurd accepted refuseScalar_ne_ok
      · intro given
        rcases given with ⟨entries, lists, _⟩
        cases lists <;> exact scalar.elim
  | array inner =>
      rw [recordMeans_array distinct]
      exact readItems_iff lawful deep within inner
  | object inner =>
      rw [recordMeans_object]
      apply bind_eq_ok_iff.trans
      constructor
      · intro given
        rcases given with ⟨⟨after, rest⟩, isAfter, done⟩
        rcases (readMembers_iff lawful deep within distinct inner).mp isAfter with
          ⟨entries, keyed, becomes, _⟩
        exact ⟨entries, keyed, Slots.complete_iff.mp ⟨after, becomes, located_eq_ok_iff.mp done⟩⟩
      · intro given
        rcases given with ⟨entries, keyed, told⟩
        rcases Slots.complete_iff.mpr told with ⟨after, becomes, completed⟩
        refine ⟨(after, []), ?_, located_eq_ok_iff.mpr completed⟩
        apply (readMembers_iff lawful deep within distinct inner).mpr
        exact ⟨entries, keyed, becomes, rfl⟩

theorem record_interprets {name : String} (lawful : LawfulFields fields depth)
    (distinct : (names fields).Nodup) {route : Route} {form : Form} {value : Value}
    {row : Row fields} (tells : form.Tells value) (decodes : form.Decodes nestingAllowance) :
    (record name fields).interpret route value = .ok row ↔ RecordMeans fields form row := by
  cases tells with
  | null | boolean | number | text =>
      refine ⟨nofun, fun given => ?_⟩
      rcases given with ⟨entries, lists, _⟩
      cases lists
  | array inner =>
      rw [recordMeans_array distinct]
      refine interpretItems_iff.trans (Row.listed_congr ?_ row).symm
      have decode := Form.decodes_array_iff.mp decodes
      have both := (List.forall₂_and_left _ _).mpr ⟨decode, inner⟩
      apply both.imp
      intro item value each field listed stored
      have decodes := each.1.mono (Nat.le_succ _)
      exact ((lawful field listed).interprets each.2 decodes).symm
  | @object members entries values keyed each =>
      rw [recordMeans_object]
      have decode : ∀ entry ∈ entries, entry.2.Decodes nestingAllowance := fun entry listed =>
        (keyed.decode_of_decodes decodes entry listed).mono (Nat.sub_le _ _)
      apply (interpretRecord_iff distinct).trans
      rw [told_of_tells lawful each decode row, keyed.exists_iff]

theorem record_follows {name : String} (lawful : LawfulFields fields depth)
    (distinct : (names fields).Nodup) :
    (record name fields).Follows (depth + 1) (RecordMeans fields) where
  rejects := record_rejects lawful
  reads := by
    intro node form allowance row holds deep within
    rcases allowance with _ | allowance
    · exact absurd deep (Nat.not_succ_le_zero _)
    · exact record_reads lawful distinct holds (Nat.le_of_succ_le_succ deep)
        (Nat.le_of_succ_le within)
  interprets := record_interprets lawful distinct

/-- A record that is kept in a structure of its own. -/
theorem record_through_follows {α : Type} {name : String} {ofRow : Row fields -> α}
    {toRow : α -> Row fields} {told : List (String × Form) -> α -> Prop}
    (lawful : LawfulFields fields depth) (distinct : (names fields).Nodup)
    (back : forall row, toRow (ofRow row) = row) (forth : forall a, ofRow (toRow a) = a)
    (told_iff : forall entries a, Row.Told Field.Means entries (toRow a) ↔ told entries a) :
    ((record name fields).through ofRow toRow).Follows (depth + 1)
      (fun form a => Exists fun entries => Lists (names fields) form entries ∧ told entries a) := by
  apply (through_follows (record_follows lawful distinct) ofRow toRow).congr
  intro form a
  constructor
  · intro given
    rcases given with ⟨row, ⟨entries, lists, rowTold⟩, rfl⟩
    rw [← back row] at rowTold
    exact ⟨entries, lists, (told_iff entries _).mp rowTold⟩
  · intro given
    rcases given with ⟨entries, lists, isTold⟩
    exact ⟨toRow a, ⟨entries, lists, (told_iff entries a).mpr isTold⟩, forth a⟩

end Codec

/-!
## Records around another record
-/

section Extended

variable {β : Type}

/-- An inner record finds in members that are decoded what it would find in
their entries. -/
def InnerFollows (inner : List (String × Value) -> Except Mismatch β)
    (innerMeans : List (String × Form) -> β -> Prop) : Prop :=
  forall (entries : List (String × Form)) (values : List (String × Value)) (base : β),
    (forall name, List.Forall₂ Form.Tells (named name entries) (named name values)) ->
    (∀ entry ∈ entries, entry.2.Decodes nestingAllowance) ->
      (inner values = .ok base ↔ innerMeans entries base)

/-- What is buffered of entries is interpreted as what the entries tell. -/
theorem InnerFollows.of_kept {inner : List (String × Value) -> Except Mismatch β}
    {innerMeans : List (String × Form) -> β -> Prop} (innerFollows : InnerFollows inner innerMeans)
    {entries : List (String × Form)} {rest : List (String × Value)} {base : β}
    (keeps : List.Forall₂ (fun entry value =>
      entry.1 = value.1 ∧ entry.2.Denotes (nestingAllowance - 1) value.2) entries rest) :
    inner rest = .ok base ↔ innerMeans entries base := by
  refine innerFollows entries rest base ?_ fun entry listed => ?_
  · exact named_forall₂ (keeps.imp fun _ _ both => ⟨both.1, both.2.tells⟩)
  · exact (Form.exists_values_iff.mp ⟨rest, keeps⟩ entry listed).mono (Nat.sub_le _ _)

theorem innerFollows_record (lawful : LawfulFields fields depth)
    (distinct : (names fields).Nodup) (route : Route) :
    InnerFollows (interpretRecord route fields)
      (fun entries (row : Row fields) => Row.Told Field.Means entries row) := by
  intro entries values row each decode
  exact (interpretRecord_iff distinct).trans (told_of_tells lawful each decode row)

theorem tells_others {entries : List (String × Form)} {values : List (String × Value)}
    (each : forall name, List.Forall₂ Form.Tells (named name entries) (named name values))
    (name : String) :
    List.Forall₂ Form.Tells (named name (others fields entries))
      (named name (others fields values)) := by
  by_cases known : name ∈ names fields
  · rw [named_others_known known, named_others_known known]
    exact .nil
  · rw [named_others known, named_others known]
    exact each name

/-- What entries tell a record that extends another one. -/
def ExtendedTold (fields : List Field) (innerMeans : List (String × Form) -> β -> Prop)
    (entries : List (String × Form)) (data : Row fields × β) : Prop :=
  Row.Told Field.Means entries data.1 ∧ innerMeans (others fields entries) data.2

theorem innerFollows_extended (lawful : LawfulFields fields depth)
    (distinct : (names fields).Nodup) (route : Route)
    {inner : List (String × Value) -> Except Mismatch β}
    {innerMeans : List (String × Form) -> β -> Prop}
    (innerFollows : InnerFollows inner innerMeans) :
    InnerFollows (interpretExtended route fields inner) (ExtendedTold fields innerMeans) := by
  rintro entries values ⟨row, base⟩ each decode
  rw [interpretExtended_iff distinct, told_of_tells lawful each decode, ExtendedTold,
    innerFollows (others fields entries) _ base (tells_others each)
      fun entry listed => decode entry (mem_others.mp listed).1]

/-- What a form means as a record that extends another one.  The members of
the inner record are decoded, with the object itself as one open container. -/
def ExtendedMeans (fields : List Field) (innerMeans : List (String × Form) -> β -> Prop)
    (form : Form) (data : Row fields × β) : Prop :=
  Exists fun members => Exists fun entries => form = .object members ∧
    Form.Keyed members entries ∧
    (∀ entry ∈ others fields entries, entry.2.Decodes (nestingAllowance - 1)) ∧
    ExtendedTold fields innerMeans entries data

namespace Codec

theorem extending_rejects {name : String} (lawful : LawfulFields fields depth)
    {inner : List (String × Value) -> Except Mismatch β}
    {innerMembers : β -> List (String × Value)} {node : Node} {allowance : Nat}
    {data : Row fields × β} (breaks : node.Breaks) :
    (extending name fields inner innerMembers).read allowance node ≠ .ok data := by
  intro accepted
  cases node with
  | leaf token => exact refuseScalar_ne_ok accepted
  | array start items ending => cases accepted
  | object start members ending =>
      cases allowance with
      | zero => cases accepted
      | succ allowance =>
          rcases bind_eq_ok_iff.mp accepted with ⟨result, isResult, done⟩
          rcases bind_eq_ok_iff.mp done with ⟨_, ended, _⟩
          exact readMembers_breaks lawful isResult ended breaks

/-- The own fields and the inner record are read when the object is closed. -/
theorem extending_reads_object {name : String} (lawful : LawfulFields fields depth)
    (deep : depth ≤ nestingAllowance - 1) (distinct : (names fields).Nodup)
    {inner : List (String × Value) -> Except Mismatch β}
    {innerMeans : List (String × Form) -> β -> Prop} (innerFollows : InnerFollows inner innerMeans)
    {innerMembers : β -> List (String × Value)} {start close : Token}
    {members : List (Key × Node)} {forms : List (List Piece × Form)}
    (holds : Node.HoldMembers members forms) {row : Row fields} {base : β} :
    (extending name fields inner innerMembers).read nestingAllowance
        (.object start members (.closed close)) = .ok (row, base) ↔
      ExtendedMeans fields innerMeans (.object forms) (row, base) := by
  have filled : forall (after : Slots fields) rest,
      readMembers .buffered (nestingAllowance - 1) (Slots.empty fields) members =
          .ok (after, rest) ↔ _ :=
    fun _ _ => readMembers_iff lawful deep (Nat.sub_le _ _) distinct holds
  apply bind_eq_ok_iff.trans
  constructor
  · intro given
    rcases given with ⟨⟨after, rest⟩, isAfter, done⟩
    rcases (filled after rest).mp isAfter with ⟨entries, keyed, becomes, keeps⟩
    rcases bind_eq_ok_iff.mp (located_eq_ok_iff.mp done) with ⟨found, completed, done⟩
    rcases bind_eq_ok_iff.mp done with ⟨foundBase, isBase, same⟩
    cases same
    have told := Slots.complete_iff.mp ⟨after, becomes, completed⟩
    have decode := Form.exists_values_iff.mp ⟨rest, keeps⟩
    exact ⟨forms, entries, rfl, keyed, decode, told, (innerFollows.of_kept keeps).mp isBase⟩
  · intro given
    rcases given with ⟨_, entries, same, keyed, decode, told, meant⟩
    cases same
    rcases Form.exists_values_iff.mpr decode with ⟨rest, keeps⟩
    rcases Slots.complete_iff.mpr told with ⟨after, becomes, completed⟩
    have isBase := (innerFollows.of_kept keeps).mpr meant
    refine ⟨(after, rest), (filled after rest).mpr ⟨entries, keyed, becomes, keeps⟩, ?_⟩
    apply located_eq_ok_iff.mpr
    exact bind_eq_ok_iff.mpr ⟨row, completed, bind_eq_ok_iff.mpr ⟨base, isBase, rfl⟩⟩

theorem extending_interprets {name : String} (lawful : LawfulFields fields depth)
    (distinct : (names fields).Nodup) {inner : List (String × Value) -> Except Mismatch β}
    {innerMeans : List (String × Form) -> β -> Prop} (innerFollows : InnerFollows inner innerMeans)
    {innerMembers : β -> List (String × Value)} {route : Route} {form : Form} {value : Value}
    {data : Row fields × β} (tells : form.Tells value)
    (decodes : form.Decodes nestingAllowance) :
    (extending name fields inner innerMembers).interpret route value = .ok data ↔
      ExtendedMeans fields innerMeans form data := by
  cases tells with
  | null | boolean | number | text | array =>
      refine ⟨nofun, fun given => ?_⟩
      rcases given with ⟨members, entries, same, _⟩
      cases same
  | @object members entries values keyed each =>
      have decode := keyed.decode_of_decodes decodes
      have follows := innerFollows_extended lawful distinct route innerFollows entries values data
        each fun entry listed => (decode entry listed).mono (Nat.sub_le _ _)
      apply follows.trans
      constructor
      · intro told
        have others : ∀ entry ∈ others fields entries, entry.2.Decodes (nestingAllowance - 1) :=
          fun entry listed => decode entry (mem_others.mp listed).1
        exact ⟨members, entries, rfl, keyed, others, told⟩
      · intro given
        rcases given with ⟨sameMembers, others, same, also, _, told⟩
        cases same
        cases keyed.unique also
        exact told

theorem extending_follows {name : String} (lawful : LawfulFields fields depth)
    (deep : depth ≤ nestingAllowance - 1) (distinct : (names fields).Nodup)
    {inner : List (String × Value) -> Except Mismatch β}
    {innerMeans : List (String × Form) -> β -> Prop} (innerFollows : InnerFollows inner innerMeans)
    (innerMembers : β -> List (String × Value)) :
    (extending name fields inner innerMembers).Follows nestingAllowance
      (ExtendedMeans fields innerMeans) where
  rejects := extending_rejects lawful
  reads := by
    intro node form allowance data holds least within
    cases Nat.le_antisymm within least
    cases holds with
    | leaf scalar =>
        refine ⟨fun accepted => absurd accepted refuseScalar_ne_ok, fun given => ?_⟩
        rcases given with ⟨members, entries, rfl, _⟩
        exact scalar.elim
    | array inner =>
        refine ⟨nofun, fun given => ?_⟩
        rcases given with ⟨members, entries, same, _⟩
        cases same
    | object holdMembers =>
        exact extending_reads_object lawful deep distinct innerFollows holdMembers
  interprets := extending_interprets lawful distinct innerFollows

/-- An extended record that is kept in a structure of its own. -/
theorem extending_through_follows {α : Type} {name : String} (lawful : LawfulFields fields depth)
    (deep : depth ≤ nestingAllowance - 1) (distinct : (names fields).Nodup)
    {inner : List (String × Value) -> Except Mismatch β}
    {innerMeans : List (String × Form) -> β -> Prop} (innerFollows : InnerFollows inner innerMeans)
    (innerMembers : β -> List (String × Value)) {ofRow : Row fields × β -> α}
    {toRow : α -> Row fields × β} {told : List (String × Form) -> α -> Prop}
    (back : forall row, toRow (ofRow row) = row) (forth : forall a, ofRow (toRow a) = a)
    (told_iff : forall entries a, ExtendedTold fields innerMeans entries (toRow a) ↔
      told entries a) :
    ((extending name fields inner innerMembers).through ofRow toRow).Follows nestingAllowance
      (fun form a => Exists fun members => Exists fun entries => form = .object members ∧
        Form.Keyed members entries ∧
        (∀ entry ∈ entries, entry.1 ∉ names fields ->
          entry.2.Decodes (nestingAllowance - 1)) ∧
        told entries a) := by
  apply (through_follows (extending_follows lawful deep distinct innerFollows innerMembers)
    ofRow toRow).congr
  intro form a
  constructor
  · intro given
    rcases given with ⟨row, ⟨members, entries, isObject, keyed, decode, rowTold⟩, rfl⟩
    rw [← back row] at rowTold
    refine ⟨members, entries, isObject, keyed, ?_, (told_iff entries _).mp rowTold⟩
    intro entry listed unnamed
    exact decode entry (mem_others.mpr ⟨listed, unnamed⟩)
  · intro given
    rcases given with ⟨members, entries, isObject, keyed, decode, isTold⟩
    have rowTold := (told_iff entries a).mpr isTold
    refine ⟨toRow a, ⟨members, entries, isObject, keyed, ?_, rowTold⟩, forth a⟩
    intro entry listed
    rcases mem_others.mp listed with ⟨isEntry, unnamed⟩
    exact decode entry isEntry unnamed

end Codec

end Extended

end Record
end RepoInspector
