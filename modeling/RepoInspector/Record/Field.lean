import RepoInspector.Record.Codec

namespace RepoInspector
namespace Record

open Json

/-!
# Fields, rows and slots

A record is described by its fields.  Its data is a row, with one entry of the
right type for each field.  While a record is being read its data is a list of
slots, each empty until the member of that name is met.
-/

structure Field where
  name : String
  Stored : Type
  codec : Codec Stored
  /-- What is stored when the member is missing, if it may be. -/
  absent : Option Stored
  /-- Whether data is left out when the record is written. -/
  omitted : Stored -> Bool

namespace Field

/-- A member that has to be present. -/
def required (name : String) (codec : Codec α) : Field :=
  ⟨name, α, codec, none, fun _ => false⟩

/-- A member that stands for a default when it is missing, but may not be null. -/
def defaulted (name : String) (codec : Codec α) (default : α) : Field :=
  ⟨name, α, codec, some default, fun _ => false⟩

/-- A member that may be missing or null, and is then left out again. -/
def optional (name : String) (codec : Codec α) : Field :=
  ⟨name, Option α, codec.optional, some none, Option.isNone⟩

end Field

/-- One entry for each field. -/
@[reducible] def Row : List Field -> Type
  | [] => Unit
  | field :: fields => field.Stored × Row fields

/-- One slot for each field, empty or filled. -/
@[reducible] def Slots : List Field -> Type
  | [] => Unit
  | field :: fields => Option field.Stored × Slots fields

namespace Slots

def empty : (fields : List Field) -> Slots fields
  | [] => ()
  | _ :: fields => (none, empty fields)

/-- Fill the slot of a name with what `read` gives for its field.  A slot that
is filled already gives `repeated` before anything is read.  There is no
result when no field has the name. -/
def fill? (name : String) (repeated : ε) (read : (field : Field) -> Except ε field.Stored) :
    {fields : List Field} -> Slots fields -> Option (Except ε (Slots fields))
  | [], () => none
  | field :: _, (slot, slots) =>
      if field.name = name then
        match slot with
        | some _ => some (.error repeated)
        | none => some ((read field).map fun stored => (some stored, slots))
      else
        match fill? name repeated read slots with
        | none => none
        | some result => some (result.map fun slots => (slot, slots))

/-- The row of the slots.  An empty slot stands for what its field stores when
it is missing; of several fields that may not be missing the first is named. -/
def complete : {fields : List Field} -> Slots fields -> Except Mismatch (Row fields)
  | [], () => .ok ()
  | field :: _, (slot, slots) =>
      match slot.or field.absent with
      | none => .error (.missing field.name)
      | some stored => do
          let row ← complete slots
          .ok (stored, row)

end Slots

namespace Row

/-- The members that a row is written as, in the order of the fields. -/
def members : {fields : List Field} -> Row fields -> List (String × Value)
  | [], () => []
  | field :: _, (stored, row) =>
      if field.omitted stored then members row
      else (field.name, field.codec.write stored) :: members row

end Row
end Record
end RepoInspector
