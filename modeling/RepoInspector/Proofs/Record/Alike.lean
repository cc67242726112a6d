import RepoInspector.Proofs.Record.Changes

namespace RepoInspector
namespace Record

open Json

/-!
# Forms in the place of others

A form inside of a document can be replaced by another one that means the same
where it stands, and the document keeps its meaning.  A form that means
nothing there spoils the document instead, and two forms that both mean
something spoil it or not together.  All of this carries over from the item of
a field to the whole record: the first because what entries tell is local to
the fields, the second because no item under a field's name is passed over,
and the third because every field is content or not on its own.
-/

/-- Two forms decode within the same allowances. -/
def SameDecoding (form other : Form) : Prop :=
  forall allowance, form.Decodes allowance ↔ other.Decodes allowance

theorem SameDecoding.member {form other : Form} (same : SameDecoding form other)
    {before after : List (List Piece × Form)} {pieces : List Piece} :
    SameDecoding (.object (before ++ (pieces, form) :: after))
      (.object (before ++ (pieces, other) :: after)) := by
  intro allowance
  cases allowance with
  | zero => exact iff_of_false Form.not_decodes_object Form.not_decodes_object
  | succ allowance => rw [Form.decodes_around_iff, Form.decodes_around_iff, same]

theorem SameDecoding.item {form other : Form} (same : SameDecoding form other)
    {before after : List Form} :
    SameDecoding (.array (before ++ form :: after)) (.array (before ++ other :: after)) := by
  intro allowance
  cases allowance with
  | zero => exact iff_of_false Form.not_decodes_array Form.not_decodes_array
  | succ allowance =>
      rw [Form.decodes_array_iff, Form.decodes_array_iff, List.forall_mem_append,
        List.forall_mem_append, List.forall_mem_cons, List.forall_mem_cons, same]

/-- Two forms mean the same, and can stand for each other in a larger form. -/
structure Alike {α : Type} (means : Form -> α -> Prop) (form other : Form) : Prop where
  same : forall a, means form a ↔ means other a
  decodes : SameDecoding form other
  null_iff : form = .null ↔ other = .null

/-- Two forms mean something or nothing together, and can stand for each other
in a larger form. -/
structure Even {α : Type} (means : Form -> α -> Prop) (form other : Form) : Prop where
  accepted : (Exists fun a => means form a) ↔ Exists fun a => means other a
  decodes : SameDecoding form other
  null_iff : form = .null ↔ other = .null

/-- A form means nothing, and is no null that could stand for the lack of
meaning. -/
structure Barred {α : Type} (means : Form -> α -> Prop) (form : Form) : Prop where
  solid : form ≠ .null
  meaningless : forall a, ¬ means form a

section Fields

variable {α β : Type} {means : Form -> α -> Prop} {form other : Form}

/-- The field of a name holds what a codec reads, or perhaps nothing. -/
inductive Field.Holds (name : String) (codec : Codec α) : Field -> Prop
  | required : Holds name codec (.required name codec)
  | defaulted {default : α} : Holds name codec (.defaulted name codec default)
  | optional : Holds name codec (.optional name codec)

variable {name : String} {codec : Codec α} {field : Field} {depth : Nat}

theorem Field.Holds.same_name (holds : field.Holds name codec) : field.name = name := by
  cases holds <;> rfl

theorem Field.Holds.means_iff (holds : field.Holds name codec)
    (follows : codec.Follows depth means) (shallow : depth ≤ nestingAllowance)
    (alike : Alike means form other) (stored : field.Stored) :
    field.Means form stored ↔ field.Means other stored := by
  cases holds with
  | required | defaulted =>
      have means_iff : forall form a, codec.Means form a ↔ means form a :=
        fun _ _ => follows.means_iff shallow
      exact (means_iff form stored).trans ((alike.same stored).trans (means_iff other stored).symm)
  | optional =>
      have means_iff : forall form data,
          codec.optional.Means form data ↔ Codec.OptionalMeans means form data :=
        fun _ _ => (Codec.optional_follows follows).means_iff shallow
      exact (means_iff form stored).trans
        ((optionalMeans_congr alike.null_iff alike.same stored).trans
          (means_iff other stored).symm)

theorem Field.Holds.meaningless (holds : field.Holds name codec)
    (follows : codec.Follows depth means) (shallow : depth ≤ nestingAllowance)
    (barred : Barred means form) (stored : field.Stored) : ¬ field.Means form stored := by
  cases holds with
  | required | defaulted =>
      intro meant
      exact barred.meaningless stored ((follows.means_iff shallow).mp meant)
  | optional =>
      intro meant
      have isOptional := ((Codec.optional_follows follows).means_iff shallow).mp meant
      rcases (Codec.optionalMeans_other barred.solid).mp isOptional with ⟨a, isMeant, _⟩
      exact barred.meaningless a isMeant

/-- Where null stands for nothing, a form means something when it is null or
means something otherwise. -/
theorem exists_optionalMeans_iff :
    (Exists fun data => Codec.OptionalMeans means form data) ↔
      form = .null ∨ form ≠ .null ∧ Exists fun a => means form a := by
  constructor
  · intro given
    rcases given with ⟨data, ⟨isNull, _⟩ | ⟨other, a, meant, _⟩⟩
    · exact .inl isNull
    · exact .inr ⟨other, a, meant⟩
  · rintro (isNull | ⟨other, a, meant⟩)
    · exact ⟨none, .inl ⟨isNull, rfl⟩⟩
    · exact ⟨some a, .inr ⟨other, a, meant, rfl⟩⟩

theorem Field.Holds.accepts_iff (holds : field.Holds name codec)
    (follows : codec.Follows depth means) (shallow : depth ≤ nestingAllowance)
    (even : Even means form other) :
    (Exists fun stored => field.Means form stored) ↔
      Exists fun stored => field.Means other stored := by
  cases holds with
  | required | defaulted =>
      have accepts_iff : forall form, (Exists fun a => codec.Means form a) ↔
          Exists fun a => means form a :=
        fun _ => exists_congr fun _ => follows.means_iff shallow
      exact (accepts_iff form).trans (even.accepted.trans (accepts_iff other).symm)
  | optional =>
      have accepts_iff : forall form, (Exists fun data => codec.optional.Means form data) ↔
          form = .null ∨ form ≠ .null ∧ Exists fun a => means form a := fun _ =>
        (exists_congr fun _ => (Codec.optional_follows follows).means_iff shallow).trans
          exists_optionalMeans_iff
      have same := or_congr even.null_iff
        (and_congr (not_congr even.null_iff) even.accepted)
      exact (accepts_iff form).trans (same.trans (accepts_iff other).symm)

end Fields

/-- Every item under the name of a field is heeded: it means something to the
field. -/
structure Heeds {α : Type} (fields : List Field)
    (told : List (String × Form) -> α -> Prop) : Prop where
  means : forall {entries : List (String × Form)} {a : α} {name : String} {item : Form},
    told entries a -> (name, item) ∈ entries -> name ∈ names fields ->
      Exists fun field : Field => field ∈ fields ∧ field.name = name ∧
        Exists fun stored => field.Means item stored

section Heeding

variable {α β : Type} {fields innerFields : List Field}

theorem Row.told_heeds (fields : List Field) :
    Heeds fields fun entries (row : Row fields) => Row.Told Field.Means entries row where
  means told listed known := told.tells listed known

theorem Heeds.congr {told : List (String × Form) -> α -> Prop}
    {other : List (String × Form) -> β -> Prop} {back : β -> α} (heeds : Heeds fields told)
    (same : forall entries b, told entries (back b) ↔ other entries b) : Heeds fields other where
  means isTold listed known := heeds.means ((same _ _).mpr isTold) listed known

/-- An item that is not of the outer fields is handed on to the inner ones. -/
theorem Heeds.extended {innerMeans : List (String × Form) -> β -> Prop}
    (inner : Heeds innerFields innerMeans) :
    Heeds (fields ++ innerFields) (ExtendedTold fields innerMeans) where
  means := by
    intro entries data name item told listed known
    by_cases own : name ∈ names fields
    · rcases told.1.tells listed own with ⟨field, isField, found⟩
      exact ⟨field, List.mem_append_left _ isField, found⟩
    · rw [names, List.map_append, List.mem_append] at known
      rcases inner.means told.2 (mem_others.mpr ⟨listed, own⟩) (known.resolve_left own) with
        ⟨field, isField, found⟩
      exact ⟨field, List.mem_append_right _ isField, found⟩

end Heeding

/-!
## What records accept
-/

/-- Entries tell something when each field stores something of the items under
its name. -/
structure Accepts {α : Type} (fields : List Field)
    (told : List (String × Form) -> α -> Prop) : Prop where
  each : forall entries : List (String × Form), (Exists fun a => told entries a) ↔
    ∀ field ∈ fields, Exists fun stored : field.Stored =>
      Stores field.absent field.Means (named field.name entries) stored

section Accepting

variable {α β : Type} {fields innerFields : List Field}

theorem Row.told_accepts (fields : List Field) :
    Accepts fields fun entries (row : Row fields) => Row.Told Field.Means entries row where
  each entries := by
    induction fields with
    | nil => exact ⟨fun _ _ => (nomatch ·), fun _ => ⟨(), trivial⟩⟩
    | cons field fields inductionHypothesis =>
        rw [List.forall_mem_cons, ← inductionHypothesis]
        constructor
        · intro given
          rcases given with ⟨⟨stored, row⟩, first, rest⟩
          exact ⟨⟨stored, first⟩, row, rest⟩
        · intro given
          rcases given with ⟨⟨stored, first⟩, row, rest⟩
          exact ⟨(stored, row), first, rest⟩

theorem Accepts.congr {told : List (String × Form) -> α -> Prop}
    {other : List (String × Form) -> β -> Prop} {back : β -> α} (forth : α -> β)
    (accepts : Accepts fields told) (onto : forall a, back (forth a) = a)
    (same : forall entries b, told entries (back b) ↔ other entries b) : Accepts fields other where
  each entries := by
    rw [← accepts.each]
    constructor
    · intro given
      rcases given with ⟨b, isTold⟩
      exact ⟨back b, (same entries b).mpr isTold⟩
    · intro given
      rcases given with ⟨a, isTold⟩
      exact ⟨forth a, (same entries _).mp ((onto a).symm ▸ isTold)⟩

/-- The inner fields lose no entry to the outer ones where no name is of both. -/
theorem Accepts.extended {innerMeans : List (String × Form) -> β -> Prop}
    (inner : Accepts innerFields innerMeans)
    (apart : ∀ name ∈ names innerFields, name ∉ names fields) :
    Accepts (fields ++ innerFields) (ExtendedTold fields innerMeans) where
  each entries := by
    have handed_iff : (Exists fun base => innerMeans (others fields entries) base) ↔
        ∀ field ∈ innerFields, Exists fun stored : field.Stored =>
          Stores field.absent field.Means (named field.name entries) stored := by
      rw [inner.each]
      apply forall_congr'
      intro field
      refine forall_congr' fun listed => ?_
      rw [named_others (apart field.name (List.mem_map_of_mem listed))]
    rw [List.forall_mem_append, ← handed_iff, ← (Row.told_accepts fields).each]
    constructor
    · intro given
      rcases given with ⟨⟨row, base⟩, outer, handed⟩
      exact ⟨⟨row, outer⟩, base, handed⟩
    · intro given
      rcases given with ⟨⟨row, outer⟩, base, handed⟩
      exact ⟨(row, base), outer, handed⟩

/-- Items that are accepted together leave something stored together. -/
theorem exists_stores_congr {σ : Type} {absent : Option σ} {tells : Form -> σ -> Prop}
    {items others : List Form}
    (same : List.Forall₂ (fun item other => (Exists fun stored => tells item stored) ↔
      Exists fun stored => tells other stored) items others) :
    (Exists fun stored => Stores absent tells items stored) ↔
      Exists fun stored => Stores absent tells others stored := by
  cases same with
  | nil => exact Iff.rfl
  | cons head tail =>
      cases tail with
      | nil => exact head
      | cons => exact Iff.rfl

/-- An item can be exchanged for one that the fields of its name accept as well. -/
theorem Accepts.changed {told : List (String × Form) -> α -> Prop} (accepts : Accepts fields told)
    {before after : List (String × Form)} {name : String} {item other : Form}
    (same : ∀ field ∈ fields, field.name = name ->
      ((Exists fun stored => field.Means item stored) ↔
        Exists fun stored => field.Means other stored)) :
    (Exists fun a => told (before ++ (name, item) :: after) a) ↔
      Exists fun a => told (before ++ (name, other) :: after) a := by
  rw [accepts.each, accepts.each]
  apply forall_congr'
  intro field
  refine forall_congr' fun listed => exists_stores_congr ?_
  apply named_exchanged
  · exact fun _ => Iff.rfl
  · exact fun isNamed => same field listed isNamed.symm

end Accepting

/-!
## Documents
-/

/-- The form that is found in a document on a way: a dictionary has lost all but
the last of the members with equal names. -/
def Way.seen (way : Way) (form : Form) : Form :=
  match way with
  | .text | .stream => form
  | .settled => form.settled

/-- Of an array every item is found. -/
theorem Way.seen_array (way : Way) (items : List Form) :
    way.seen (.array items) = .array (items.map way.seen) := by
  cases way with
  | text | stream => exact congrArg Form.array (List.map_id items).symm
  | settled => exact congrArg Form.array (Form.settledItems_eq_map items)

/-- What is read is the document of a form. -/
theorem Codec.ReadsForms.exists_written {α : Type}
    {decode : Way -> Supply -> Except DocumentFault α} {means : Form -> α -> Prop}
    (reads : ReadsForms decode means) {way : Way} {text : String} {a : α}
    (accepted : decode way (supplyOfText text) = .ok a) :
    Exists fun form : Form => form.Written text.toUTF8.toList := by
  cases way with
  | text => exact (reads.text.mp accepted).imp fun _ => And.left
  | stream => exact (reads.stream.mp accepted).imp fun _ => And.left
  | settled => exact (reads.settled.mp accepted).imp fun _ => And.left

/-- A text is read as what its form means on the way, where a dictionary can
only be made of a form that decodes. -/
theorem Codec.ReadsForms.decode_iff {α : Type} {decode : Way -> Supply -> Except DocumentFault α}
    {means : Form -> α -> Prop} (reads : ReadsForms decode means) {text : String} {form : Form}
    (written : form.Written text.toUTF8.toList) {way : Way} {a : α} :
    decode way (supplyOfText text) = .ok a ↔
      (way = .settled -> form.Decodes nestingAllowance) ∧ means (way.seen form) a := by
  cases way with
  | text =>
      rw [reads.text, Form.exists_written_iff written]
      exact (and_iff_right nofun).symm
  | stream =>
      rw [reads.stream, Form.exists_written_iff written]
      exact (and_iff_right nofun).symm
  | settled =>
      rw [reads.settled, Form.exists_written_iff written]
      exact and_congr_left' (imp_iff_right rfl).symm

end Record
end RepoInspector
