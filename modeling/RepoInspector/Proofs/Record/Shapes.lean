import RepoInspector.Proofs.Record.Reading

namespace RepoInspector
namespace Record

open Json

/-!
# The shapes of codecs

A codec is put together from the codecs of scalars, and its shape says where it
takes records.  What is true of the codecs of scalars, and stays true when codecs
are put together, is true of every codec that has a shape.
-/

/-- Where records can stand in data. -/
inductive Shape
  | scalar
  /-- A record, with the names of its fields in order and what stands in them. -/
  | record (fieldNames : List String) (inner : String -> Shape)

/-- A codec takes records where they stand in a shape, and scalars everywhere else. -/
inductive Codec.Shaped : {α : Type} -> Codec α -> Shape -> Prop
  | text : Shaped Codec.text .scalar
  | boolean : Shaped Codec.boolean .scalar
  | unsigned : Shaped Codec.unsigned .scalar
  | instant : Shaped Codec.instant .scalar
  | optional {α : Type} {codec : Codec α} {shape : Shape} (shaped : Shaped codec shape) :
      Shaped codec.optional shape
  | through {α β : Type} {codec : Codec α} {shape : Shape} (shaped : Shaped codec shape)
      (forth : α -> β) (back : β -> α) : Shaped (codec.through forth back) shape
  | record {fields : List Field} {inner : String -> Shape} {depth : Nat} (name : String)
      (lawful : LawfulFields fields depth) (shallow : depth + 1 ≤ nestingAllowance)
      (distinct : (names fields).Nodup)
      (each : ∀ field ∈ fields, Shaped field.codec (inner field.name)) :
      Shaped (Codec.record name fields) (.record (names fields) inner)

/-- The codecs of fields have the shapes that stand inside a record. -/
def ShapedFields (fields : List Field) (inner : String -> Shape) : Prop :=
  ∀ field ∈ fields, field.codec.Shaped (inner field.name)

namespace ShapedFields

variable {fields : List Field} {inner : String -> Shape}

theorem nil : ShapedFields [] inner := fun _ => (nomatch ·)

theorem cons {field : Field} (first : field.codec.Shaped (inner field.name))
    (others : ShapedFields fields inner) : ShapedFields (field :: fields) inner :=
  List.forall_mem_cons.mpr ⟨first, others⟩

/-- The codec of a record, by the shapes of its fields. -/
theorem record {depth : Nat} (shaped : ShapedFields fields inner) (name : String)
    (lawful : LawfulFields fields depth) (shallow : depth + 1 ≤ nestingAllowance)
    (distinct : (names fields).Nodup) :
    (Codec.record name fields).Shaped (.record (names fields) inner) :=
  .record name lawful shallow distinct shaped

end ShapedFields

end Record
end RepoInspector
