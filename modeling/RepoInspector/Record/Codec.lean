import RepoInspector.Json.Reading
import RepoInspector.Json.Writing
import RepoInspector.Time.Reading
import RepoInspector.Time.Writing

namespace RepoInspector
namespace Record

open Json

/-!
# Codecs

A codec reads one type of data in two ways and writes it in one.  It reads a
tree directly, in text order and without decoding what the type does not ask
for, and it reads a value that is already decoded.  The two ways give the
same data; they differ in when a fault is noticed and in how it is reported.
-/

/-- Where a decoded value comes from.  A buffered value keeps the members of
its objects as they stand in the text; a settled one is a dictionary. -/
inductive Route
  | buffered
  | settled
deriving DecidableEq, Repr

structure Codec (α : Type) where
  /-- Read a tree, with an allowance of containers that may be opened. -/
  read : Nat -> Node -> Except Fault α
  /-- Read a decoded value. -/
  interpret : Route -> Value -> Except Mismatch α
  write : α -> Value

/-- Place a mismatch in the document. -/
def located (mark : Mark) : Except Mismatch α -> Except Fault α
  | .ok a => .ok a
  | .error mismatch => .error (.ofMismatch mismatch mark)

namespace Codec

/-- Read the same data as another type. -/
def through (codec : Codec α) (forth : α -> β) (back : β -> α) : Codec β where
  read allowance node := (codec.read allowance node).map forth
  interpret route value := (codec.interpret route value).map forth
  write b := codec.write (back b)

/-- A codec for scalars.  A container in the place of a scalar is refused at
its opening bracket, before anything in it is looked at. -/
def scalar (expected : Expectation) (interpret : Value -> Except Mismatch α)
    (write : α -> Value) : Codec α where
  read _ node :=
    match node with
    | .leaf token => do
        let value ← token.read
        located token.scalarMark (interpret value)
    | .array start _ _ =>
        .error (.ofMismatch (.wrongType .sequence expected) (.facing start.start))
    | .object start _ _ =>
        .error (.ofMismatch (.wrongType .map expected) (.facing start.start))
  interpret _ value := interpret value
  write := write

def text : Codec String :=
  scalar .text
    (fun value =>
      match value with
      | .text s => .ok s
      | value => .error (.wrongType value.found .text))
    .text

def boolean : Codec Bool :=
  scalar .boolean
    (fun value =>
      match value with
      | .boolean b => .ok b
      | value => .error (.wrongType value.found .boolean))
    .boolean

/-- A number of 64 unsigned bits.  A negative number has the right type and the
wrong value; a number with a fraction, an exponent or too many digits does not
have the type. -/
def unsigned : Codec UInt64 :=
  scalar .unsigned
    (fun value =>
      match value with
      | .number (.natural n) => .ok n
      | .number (.negative n) => .error (.wrongValue (.negative n) .unsigned)
      | value => .error (.wrongType value.found .unsigned))
    (fun n => .number (.natural n))

def instant : Codec Time.Instant :=
  scalar .timestamp
    (fun value =>
      match value with
      | .text s =>
          match Time.Instant.ofText s with
          | .ok instant => .ok instant
          | .error fault => .error (.timestamp fault)
      | value => .error (.wrongType value.found .timestamp))
    (fun instant => .text instant.text)

/-- Null, or data. -/
def optional (codec : Codec α) : Codec (Option α) where
  read allowance node :=
    match node with
    | .leaf ⟨.null, _, _⟩ => .ok none
    | node => (codec.read allowance node).map some
  interpret route value :=
    match value with
    | .null => .ok none
    | value => (codec.interpret route value).map some
  write data :=
    match data with
    | none => .null
    | some a => codec.write a

end Codec
end Record
end RepoInspector
