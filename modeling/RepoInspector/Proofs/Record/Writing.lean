import RepoInspector.Proofs.Json.Writing
import RepoInspector.Proofs.Record.Laws
import RepoInspector.Proofs.Time.RoundTrip

namespace RepoInspector
namespace Record

open Json

/-!
# Writing and reading again

What a codec writes is interpreted as what was written.  Like the laws of
reading this is kept by everything that codecs are built with, and a record
needs two things for it: that its fields have names of their own, and that a
field leaves out only what it stores when it is missing.
-/

namespace Codec

variable {α β : Type}

/-- What a codec writes is tidy, and is interpreted as what was written. -/
structure Writes (codec : Codec α) (depth : Nat) : Prop where
  tidy : forall a, (codec.write a).Tidy depth
  restores : forall route a, codec.interpret route (codec.write a) = .ok a

theorem Writes.deeper {codec : Codec α} {depth more : Nat} (writes : codec.Writes depth)
    (least : depth ≤ more) : codec.Writes more where
  tidy a := (writes.tidy a).mono least
  restores := writes.restores

theorem text_writes {depth : Nat} : text.Writes depth where
  tidy _ := .text
  restores _ _ := rfl

theorem boolean_writes {depth : Nat} : boolean.Writes depth where
  tidy _ := .boolean
  restores _ _ := rfl

theorem unsigned_writes {depth : Nat} : unsigned.Writes depth where
  tidy _ := .natural
  restores _ _ := rfl

theorem instant_writes {depth : Nat} : instant.Writes depth where
  tidy _ := .text
  restores _ moment := by
    simp only [instant, scalar, Time.Instant.ofText_text]

/-- Data can be told from its absence when none of it is written as null. -/
theorem optional_writes {codec : Codec α} {depth : Nat} (writes : codec.Writes depth)
    (solid : forall a, codec.write a ≠ .null) : codec.optional.Writes depth where
  tidy data := by
    cases data with
    | none => exact .null
    | some a => exact writes.tidy a
  restores route data := by
    cases data with
    | none => rfl
    | some a =>
        apply (optional_interpret_other (solid a)).trans
        exact congrArg (Except.map some) (writes.restores route a)

theorem through_writes {codec : Codec α} {depth : Nat} (writes : codec.Writes depth)
    {forth : α -> β} {back : β -> α} (inverse : forall b, forth (back b) = b) :
    (codec.through forth back).Writes depth where
  tidy b := writes.tidy (back b)
  restores route b := map_eq_ok_iff.mpr ⟨back b, writes.restores route (back b), inverse b⟩

end Codec

/-!
## Rows
-/

/-- A field writes its data, and leaves out only what it stores when missing. -/
structure Field.Writes (field : Field) (depth : Nat) : Prop where
  codec : field.codec.Writes depth
  omits : forall stored, field.omitted stored = true -> field.absent = some stored

theorem required_writes {α : Type} {name : String} {codec : Codec α} {depth : Nat}
    (writes : codec.Writes depth) : (Field.required name codec).Writes depth :=
  ⟨writes, fun _ => nofun⟩

theorem defaulted_writes {α : Type} {name : String} {codec : Codec α} {default : α} {depth : Nat}
    (writes : codec.Writes depth) : (Field.defaulted name codec default).Writes depth :=
  ⟨writes, fun _ => nofun⟩

theorem optional_writes {α : Type} {name : String} {codec : Codec α} {depth : Nat}
    (writes : codec.Writes depth) (solid : forall a, codec.write a ≠ .null) :
    (Field.optional name codec).Writes depth where
  codec := Codec.optional_writes writes solid
  omits stored omitted := by
    cases stored with
    | none => rfl
    | some a => cases omitted

/-- Every field writes its data. -/
def WritingFields (fields : List Field) (depth : Nat) : Prop :=
  ∀ field ∈ fields, field.Writes depth

theorem WritingFields.nil {depth : Nat} : WritingFields [] depth := fun _ => (nomatch ·)

theorem WritingFields.cons {field : Field} {fields : List Field} {depth : Nat}
    (first : field.Writes depth) (rest : WritingFields fields depth) :
    WritingFields (field :: fields) depth :=
  List.forall_mem_cons.mpr ⟨first, rest⟩

namespace Row

variable {fields : List Field} {depth : Nat}

theorem members_omitted {field : Field} {stored : field.Stored} {row : Row fields}
    (omitted : field.omitted stored = true) :
    @members (field :: fields) (stored, row) = row.members := by
  rw [members, if_pos omitted]

theorem members_kept {field : Field} {stored : field.Stored} {row : Row fields}
    (kept : ¬ field.omitted stored = true) :
    @members (field :: fields) (stored, row) =
      (field.name, field.codec.write stored) :: row.members := by
  rw [members, if_neg kept]

/-- A row is written under names of its fields, in their order. -/
theorem names_members : {fields : List Field} -> (row : Row fields) ->
    (row.members.map Prod.fst).Sublist (names fields)
  | [], () => .slnil
  | field :: fields, (stored, row) => by
      by_cases omitted : field.omitted stored = true
      · rw [members_omitted omitted]
        exact .cons _ (names_members row)
      · rw [members_kept omitted]
        exact .cons_cons _ (names_members row)

theorem tidy_members : {fields : List Field} -> WritingFields fields depth ->
    (row : Row fields) -> ∀ member ∈ row.members, member.2.Tidy depth
  | [], _, () => fun _ => (nomatch ·)
  | field :: fields, writing, (stored, row) => by
      rcases List.forall_mem_cons.mp writing with ⟨first, rest⟩
      by_cases omitted : field.omitted stored = true
      · rw [members_omitted omitted]
        exact tidy_members rest row
      · rw [members_kept omitted]
        exact List.forall_mem_cons.mpr ⟨first.codec.tidy stored, tidy_members rest row⟩

/-- The members that a row is written as tell the row. -/
theorem told_members (route : Route) : {fields : List Field} -> WritingFields fields depth ->
    (names fields).Nodup -> (row : Row fields) ->
      Row.Told (Interprets route) row.members row
  | [], _, _, () => trivial
  | field :: fields, writing, distinct, (stored, row) => by
      rcases List.forall_mem_cons.mp writing with ⟨first, rest⟩
      have split := List.nodup_cons.mp distinct
      have later := told_members route rest split.2 row
      have absent : named field.name row.members = [] :=
        named_eq_nil_iff.mpr fun listed => split.1 ((names_members row).subset listed)
      by_cases omitted : field.omitted stored = true
      · rw [members_omitted omitted]
        refine ⟨?_, later⟩
        rw [absent]
        exact first.omits stored omitted
      · rw [members_kept omitted]
        refine ⟨?_, (Row.told_of_named (fun name listed => ?_) row).mpr later⟩
        · rw [named_cons_self, absent]
          exact first.codec.restores route stored
        · exact named_cons_of_ne (fun same : field.name = name => split.1 (same ▸ listed)) _ _

end Row

/-!
## Records
-/

variable {fields : List Field} {depth : Nat}

/-- Members that an inner record is written as, all under names that are its
own, are what it is interpreted from. -/
structure InnerWrites {β : Type} (inner : List (String × Value) -> Except Mismatch β)
    (innerMembers : β -> List (String × Value)) (taken : List String) (depth : Nat) : Prop where
  names : forall base, ∀ name ∈ (innerMembers base).map Prod.fst, name ∈ taken
  distinct : forall base, ((innerMembers base).map Prod.fst).Nodup
  tidy : forall base, ∀ member ∈ innerMembers base, member.2.Tidy depth
  restores : forall base, inner (innerMembers base) = .ok base

theorem InnerWrites.deeper {β : Type} {inner : List (String × Value) -> Except Mismatch β}
    {innerMembers : β -> List (String × Value)} {taken : List String} {more : Nat}
    (writes : InnerWrites inner innerMembers taken depth) (least : depth ≤ more) :
    InnerWrites inner innerMembers taken more where
  names := writes.names
  distinct := writes.distinct
  tidy base member listed := (writes.tidy base member listed).mono least
  restores := writes.restores

theorem innerWrites_record (writing : WritingFields fields depth)
    (distinct : (names fields).Nodup) (route : Route) :
    InnerWrites (interpretRecord route fields) Row.members (names fields) depth where
  names row _ listed := (Row.names_members row).subset listed
  distinct row := distinct.sublist (Row.names_members row)
  tidy row := Row.tidy_members writing row
  restores row := (interpretRecord_iff distinct).mpr (Row.told_members route writing distinct row)

theorem innerWrites_extended {β : Type} {inner : List (String × Value) -> Except Mismatch β}
    {innerMembers : β -> List (String × Value)} {taken : List String}
    (writing : WritingFields fields depth) (distinct : (names fields).Nodup) (route : Route)
    (innerWrites : InnerWrites inner innerMembers taken depth)
    (apart : ∀ name ∈ taken, name ∉ names fields) :
    InnerWrites (interpretExtended route fields inner)
      (fun data : Row fields × β => innerMembers data.2 ++ data.1.members)
      (taken ++ names fields) depth where
  names data name listed := by
    rw [List.map_append, List.mem_append] at listed
    apply List.mem_append.mpr
    rcases listed with isInner | own
    · exact .inl (innerWrites.names data.2 name isInner)
    · exact .inr ((Row.names_members data.1).subset own)
  distinct data := by
    rw [List.map_append, List.nodup_append]
    refine ⟨innerWrites.distinct data.2, distinct.sublist (Row.names_members data.1), ?_⟩
    rintro name isInner _ isOwn rfl
    have isTaken := innerWrites.names data.2 name isInner
    have isOwnName := (Row.names_members data.1).subset isOwn
    exact apart name isTaken isOwnName
  tidy data := List.forall_mem_append.mpr
    ⟨innerWrites.tidy data.2, Row.tidy_members writing data.1⟩
  restores := by
    intro given
    rcases given with ⟨row, base⟩
    have unnamed : ∀ member ∈ innerMembers base, member.1 ∉ names fields := fun member listed =>
      apart member.1 (innerWrites.names base member.1 (List.mem_map_of_mem listed))
    refine (interpretExtended_iff distinct).mpr ⟨?_, ?_⟩
    · refine (Row.told_of_named (fun name listed => ?_) row).mpr
        (Row.told_members route writing distinct row)
      rw [named_append, named_eq_nil fun member isInner same =>
        unnamed member isInner (same ▸ listed), List.nil_append]
    · have own : others fields row.members = [] :=
        List.filter_eq_nil_iff.mpr fun member listed => by
          simpa using (Row.names_members row).subset (List.mem_map_of_mem listed)
      have kept : others fields (innerMembers base) = innerMembers base :=
        List.filter_eq_self.mpr fun member listed => by simpa using unnamed member listed
      rw [others, List.filter_append, ← others, ← others, own, kept, List.append_nil]
      exact innerWrites.restores base

namespace Codec

theorem record_writes {name : String} (writing : WritingFields fields depth)
    (distinct : (names fields).Nodup) : (record name fields).Writes (depth + 1) where
  tidy row := .object (distinct.sublist (Row.names_members row)) (Row.tidy_members writing row)
  restores route row := (innerWrites_record writing distinct route).restores row

theorem extending_writes {β : Type} {name : String}
    {inner : List (String × Value) -> Except Mismatch β}
    {innerMembers : β -> List (String × Value)} {taken : List String}
    (writing : WritingFields fields depth) (distinct : (names fields).Nodup)
    (innerWrites : InnerWrites inner innerMembers taken depth)
    (apart : ∀ name ∈ taken, name ∉ names fields) :
    (extending name fields inner innerMembers).Writes (depth + 1) where
  tidy data :=
    have whole := innerWrites_extended writing distinct .buffered innerWrites apart
    .object (whole.distinct data) (whole.tidy data)
  restores route data :=
    (innerWrites_extended writing distinct route innerWrites apart).restores data

/-!
## Documents
-/

variable {α : Type} {codec : Codec α} {means : Form -> α -> Prop}

/-- A text that denotes what a codec writes is read as what was written,
whichever way it is read. -/
theorem decode_written {writtenDepth : Nat} (follows : codec.Follows depth means)
    (shallow : depth ≤ nestingAllowance) (writes : codec.Writes writtenDepth) {text : String}
    {form : Form} {a : α} (written : form.Written text.toUTF8.toList) (distinct : form.Distinct)
    (denotes : form.Denotes nestingAllowance (codec.write a)) (way : Way) :
    codec.decode way (supplyOfText text) = .ok a := by
  have meant : means form a :=
    (follows.interprets denotes.tells ⟨_, denotes⟩).mp (writes.restores .buffered a)
  exact (follows.readsForms shallow).of_distinct written ⟨_, denotes⟩ distinct meant way

/-- So is a document that a codec writes, in either style. -/
theorem decode_encode {writtenDepth : Nat} (follows : codec.Follows depth means)
    (shallow : depth ≤ nestingAllowance) (writes : codec.Writes writtenDepth)
    (writtenShallow : writtenDepth ≤ nestingAllowance) (way : Way) (style : Style) (a : α) :
    codec.decode way (supplyOfText (codec.encode style a)) = .ok a := by
  rcases ((writes.tidy a).mono writtenShallow).written with ⟨form, denotes, distinct, written⟩
  exact decode_written follows shallow writes (written style) distinct denotes way

end Codec
end Record
end RepoInspector
