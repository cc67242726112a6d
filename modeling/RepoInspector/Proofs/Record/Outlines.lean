import RepoInspector.Proofs.Record.Writing

namespace RepoInspector

namespace Json

/-!
# Outlines of documents

An outline says of a document where its scalars and objects are and under
which names, in text order, but not what the scalars are.  Nulls and arrays
have no outline.  What a record is written as has the outline that its fields
prescribe: each field has a place, and is either written there or left out.
-/

inductive Outline
  | scalar
  | object (members : List (String × Outline))

namespace Form

mutual

/-- A form has an outline. -/
inductive Outlined : Form -> Outline -> Prop
  | boolean {b : Bool} : Outlined (.boolean b) .scalar
  | number {numeral : Numeral} : Outlined (.number numeral) .scalar
  | text {pieces : List Piece} : Outlined (.text pieces) .scalar
  | object {members : List (List Piece × Form)} {outlines : List (String × Outline)}
      (inner : MembersOutlined members outlines) : Outlined (.object members) (.object outlines)

/-- Members have the names and the outlines of other members, in the same order. -/
inductive MembersOutlined : List (List Piece × Form) -> List (String × Outline) -> Prop
  | nil : MembersOutlined [] []
  | cons {pieces : List Piece} {name : String} {form : Form} {outline : Outline}
      {members : List (List Piece × Form)} {outlines : List (String × Outline)}
      (denoted : Piece.denoted? pieces = some name) (first : Outlined form outline)
      (rest : MembersOutlined members outlines) :
      MembersOutlined ((pieces, form) :: members) ((name, outline) :: outlines)

end

theorem MembersOutlined.append {members later : List (List Piece × Form)}
    {outlines laterOutlines : List (String × Outline)} (before : MembersOutlined members outlines)
    (after : MembersOutlined later laterOutlines) :
    MembersOutlined (members ++ later) (outlines ++ laterOutlines) := by
  induction members generalizing outlines with
  | nil =>
      cases before
      exact after
  | cons member members inductionHypothesis =>
      cases before with
      | cons denoted first rest => exact .cons denoted first (inductionHypothesis rest)

theorem notNull_ofScalars : Lexeme.OfScalars fun lexeme => lexeme ≠ .null :=
  ⟨nofun, nofun, nofun, nofun, nofun, nofun⟩

mutual

/-- Null occurs nowhere in a form that has an outline. -/
theorem Outlined.ne_null {form : Form} {outline : Outline} :
    Outlined form outline -> ∀ lexeme ∈ form.lexemes, lexeme ≠ .null
  | .boolean | .number | .text => List.forall_mem_singleton.mpr nofun
  | .object inner => (each_object notNull_ofScalars).mpr inner.ne_null

theorem MembersOutlined.ne_null {members : List (List Piece × Form)}
    {outlines : List (String × Outline)} : MembersOutlined members outlines ->
      ∀ member ∈ members, Lexeme.closedText member.1 ≠ .null ∧
        ∀ lexeme ∈ member.2.lexemes, lexeme ≠ .null
  | .nil => fun _ => (nomatch ·)
  | .cons _ first rest => List.forall_mem_cons.mpr ⟨⟨nofun, first.ne_null⟩, rest.ne_null⟩

end

theorem denoteMembers_append {allowance : Nat} {forms : List (List Piece × Form)}
    {values later : List (String × Value)}
    (denoted : DenoteMembers allowance forms (values ++ later)) :
    Exists fun before => Exists fun after => forms = before ++ after ∧
      DenoteMembers allowance before values ∧ DenoteMembers allowance after later := by
  induction values generalizing forms with
  | nil => exact ⟨[], forms, rfl, .nil, denoted⟩
  | cons value values inductionHypothesis =>
      cases denoted with
      | cons isNamed first rest =>
          rcases inductionHypothesis rest with ⟨before, after, rfl, denotedBefore, denotedAfter⟩
          exact ⟨_ :: before, after, rfl, .cons isNamed first denotedBefore, denotedAfter⟩

end Form

/-- The members that are there, of those that have a place. -/
def present (sketch : List (String × Option Outline)) : List (String × Outline) :=
  sketch.filterMap fun place => place.2.map fun outline => (place.1, outline)

end Json

namespace Record

open Json

namespace Codec

variable {α : Type}

/-- Whatever denotes what a codec writes has the outline of the data. -/
structure Sketches (codec : Codec α) (outline : α -> Outline) : Prop where
  outlined : forall {allowance : Nat} {form : Form} {a : α},
    form.Denotes allowance (codec.write a) -> form.Outlined (outline a)

theorem text_sketches : text.Sketches fun _ => .scalar where
  outlined denotes := by
    cases denotes with
    | text => exact .text

theorem boolean_sketches : boolean.Sketches fun _ => .scalar where
  outlined denotes := by
    cases denotes with
    | boolean => exact .boolean

theorem unsigned_sketches : unsigned.Sketches fun _ => .scalar where
  outlined denotes := by
    cases denotes with
    | number => exact .number

theorem instant_sketches : instant.Sketches fun _ => .scalar where
  outlined denotes := by
    cases denotes with
    | text => exact .text

end Codec

section Fields

variable {α : Type} {name : String} {codec : Codec α} {outline : α -> Outline}

/-- What a field stores is left out, or is written with an outline, under the
name of the field either way. -/
inductive Field.Sketched (field : Field) (stored : field.Stored) : String × Option Outline -> Prop
  | omitted (isOmitted : field.omitted stored = true) : Sketched field stored (field.name, none)
  | written {outline : Outline} (isWritten : ¬ field.omitted stored = true)
      (outlined : forall {allowance : Nat} {form : Form},
        form.Denotes allowance (field.codec.write stored) -> form.Outlined outline) :
      Sketched field stored (field.name, some outline)

theorem required_sketched (sketches : codec.Sketches outline) (a : α) :
    (Field.required name codec).Sketched a (name, some (outline a)) :=
  .written nofun sketches.outlined

theorem defaulted_sketched {default : α} (sketches : codec.Sketches outline) (a : α) :
    (Field.defaulted name codec default).Sketched a (name, some (outline a)) :=
  .written nofun sketches.outlined

/-- An optional member is there just when there is data. -/
theorem optional_sketched (sketches : codec.Sketches outline) (data : Option α) :
    (Field.optional name codec).Sketched data (name, data.map outline) := by
  cases data with
  | none => exact .omitted rfl
  | some a => exact .written nofun sketches.outlined

end Fields

/-- Each field of a row is left out or written as its place says. -/
def Row.Sketched : {fields : List Field} -> Row fields -> List (String × Option Outline) -> Prop
  | [], (), [] => True
  | [], (), _ :: _ => False
  | _ :: _, _, [] => False
  | field :: _, (stored, row), place :: sketch =>
      field.Sketched stored place ∧ Row.Sketched row sketch

/-- The members that a row is written as are those that are present in its sketch. -/
theorem Row.Sketched.outlined {fields : List Field} {row : Row fields}
    {sketch : List (String × Option Outline)} (sketched : row.Sketched sketch) {allowance : Nat}
    {forms : List (List Piece × Form)} (denoted : Form.DenoteMembers allowance forms row.members) :
    Form.MembersOutlined forms (present sketch) := by
  induction fields generalizing sketch forms with
  | nil =>
      cases sketch with
      | nil =>
          cases denoted
          exact .nil
      | cons => exact sketched.elim
  | cons field fields inductionHypothesis =>
      cases sketch with
      | nil => exact sketched.elim
      | cons place sketch =>
          rcases row with ⟨stored, row⟩
          rcases sketched with ⟨first, rest⟩
          cases first with
          | omitted isOmitted =>
              rw [Row.members_omitted isOmitted] at denoted
              exact inductionHypothesis rest denoted
          | written isWritten outlined =>
              rw [Row.members_kept isWritten] at denoted
              cases denoted with
              | cons isNamed item later =>
                  exact .cons isNamed (outlined item) (inductionHypothesis rest later)

end Record
end RepoInspector
