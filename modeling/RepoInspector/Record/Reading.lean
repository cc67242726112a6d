import RepoInspector.Record.Field

namespace RepoInspector
namespace Record

open Json

/-!
# Reading records

A record stands in a document as an object, or as an array of its fields in
their order.  Members of an object are taken in text order: a known name
fills its slot, and any other member is either passed over or, when further
fields wait for it, buffered.  Only when the object is closed are missing
members noticed.
-/

/-- What becomes of the members that no field asks for. -/
inductive Others
  | passed
  | buffered
deriving DecidableEq, Repr

/-- Deal with a member that no field asks for. -/
def Others.read (others : Others) (allowance : Nat) (node : Node) :
    Except Fault (Option Value) :=
  match others with
  | .passed => do
      node.pass
      .ok none
  | .buffered => do
      let value ← node.buffer allowance
      .ok (some value)

/-- Sort the members of an object into slots and others. -/
def readMembers (others : Others) (allowance : Nat) {fields : List Field} :
    Slots fields -> List (Key × Node) -> Except Fault (Slots fields × List (String × Value))
  | slots, [] => .ok (slots, [])
  | slots, (key, node) :: members => do
      let name ← key.read
      let filled := slots.fill? name
        (.ofMismatch (.repeated name) key.next.closingMark)
        (fun field => do
          key.colon
          field.codec.read allowance node)
      match filled with
      | some result => do
          let slots ← result
          readMembers others allowance slots members
      | none => do
          key.colon
          let kept ← others.read allowance node
          let (slots, rest) ← readMembers others allowance slots members
          match kept with
          | none => .ok (slots, rest)
          | some value => .ok (slots, (name, value) :: rest)

/-- Sort decoded members into slots and others. -/
def interpretMembers (route : Route) {fields : List Field} :
    Slots fields -> List (String × Value) ->
      Except Mismatch (Slots fields × List (String × Value))
  | slots, [] => .ok (slots, [])
  | slots, (name, value) :: members => do
      let filled := slots.fill? name (.repeated name)
        (fun field => field.codec.interpret route value)
      match filled with
      | some result => do
          let slots ← result
          interpretMembers route slots members
      | none => do
          let (slots, rest) ← interpretMembers route slots members
          .ok (slots, (name, value) :: rest)

/-- The first token of a tree. -/
def firstToken : Node -> Token
  | .leaf token => token
  | .array start _ _ => start
  | .object start _ _ => start

/-- The mark at which an array that is read as a record ends. -/
def arrayMark : ArrayEnd -> Mark
  | .closed close => .after close.stop
  | .afterComma next | .unseparated next => next.closingMark
  | .broken => .after 0

/-- The mark at which an object that is read as a record ends. -/
def objectMark : ObjectEnd -> Mark
  | .closed close => .after close.stop
  | .keyless _ next | .unseparated next => next.closingMark
  | .broken => .after 0

/-- Whether an array ends after the last field of a record.  What follows a
comma is not read any more. -/
def arrayEnds (rest : List Node) (ending : ArrayEnd) : Except Fault Unit :=
  match rest with
  | item :: _ => .error (.placed .trailingCharacters (.after ((firstToken item).start + 1)))
  | [] =>
      match ending with
      | .closed _ | .broken => .ok ()
      | .afterComma close => .error (.placed .trailingComma (.after (close.start + 1)))
      | .unseparated next => .error (next.unexpected .endInArray .trailingCharacters)

/-- Read the items of an array as the fields of a record.  `tooShort` is the
report of an array that lacks a required field, given that field's place. -/
def readItems (allowance : Nat) (tooShort : Nat -> Mismatch) (ending : ArrayEnd) :
    (fields : List Field) -> Nat -> List Node -> Except Fault (Row fields)
  | [], _, items => do
      arrayEnds items ending
      .ok ()
  | field :: fields, index, item :: items => do
      let stored ← field.codec.read allowance item
      let row ← readItems allowance tooShort ending fields (index + 1) items
      .ok (stored, row)
  | field :: fields, index, [] => do
      ending.read
      match field.absent with
      | none => .error (.ofMismatch (tooShort index) (arrayMark ending))
      | some stored => do
          let row ← readItems allowance tooShort ending fields (index + 1) []
          .ok (stored, row)

/-- Read decoded items as the fields of a record. -/
def interpretItems (route : Route) (tooShort : Nat -> Mismatch) (tooLong : Mismatch) :
    (fields : List Field) -> Nat -> List Value -> Except Mismatch (Row fields)
  | [], _, [] => .ok ()
  | [], _, _ :: _ => .error tooLong
  | field :: fields, index, item :: items => do
      let stored ← field.codec.interpret route item
      let row ← interpretItems route tooShort tooLong fields (index + 1) items
      .ok (stored, row)
  | field :: fields, index, [] =>
      match field.absent with
      | none => .error (tooShort index)
      | some stored => do
          let row ← interpretItems route tooShort tooLong fields (index + 1) []
          .ok (stored, row)

/-- The report of an array that is too short for a record. -/
def shortArray (name : String) (fields : List Field) (index : Nat) : Mismatch :=
  .wrongLength index (.recordOf name fields.length)

/-- The report of an array that is too long for a record. -/
def longArray (fields : List Field) (route : Route) (length : Nat) : Mismatch :=
  match route with
  | .buffered => .wrongLength length (.sequenceOf fields.length)
  | .settled => .wrongLength length .shorterArray

/-- A scalar in the place of a record. -/
def refuseScalar (name : String) (token : Token) : Except Fault α := do
  let value ← token.read
  .error (.ofMismatch (.wrongType value.found (.record name)) token.scalarMark)

/-- Read the members that fill a record, where others do not matter. -/
def interpretRecord (route : Route) (fields : List Field) (members : List (String × Value)) :
    Except Mismatch (Row fields) := do
  let (slots, _) ← interpretMembers route (Slots.empty fields) members
  slots.complete

/-- A record whose name in reports is `name`. -/
def Codec.record (name : String) (fields : List Field) : Codec (Row fields) where
  read allowance node :=
    match node, allowance with
    | .leaf token, _ => refuseScalar name token
    | .array start _ _, 0 | .object start _ _, 0 => .error (Node.tooDeep start)
    | .array _ items ending, allowance + 1 =>
        readItems allowance (shortArray name fields) ending fields 0 items
    | .object _ members ending, allowance + 1 => do
        let (slots, _) ← readMembers .passed allowance (Slots.empty fields) members
        ending.read
        located (objectMark ending) slots.complete
  interpret route value :=
    match value with
    | .array items =>
        interpretItems route (shortArray name fields) (longArray fields route items.length)
          fields 0 items
    | .object members => interpretRecord route fields members
    | value => .error (.wrongType value.found (.record name))
  write row := .object row.members

/-!
## Records around another record

Some records are written into the object of the record that they extend.
Their own fields are read as they are met.  All other members are buffered and
then handed to the inner record, so a fault in one of them is noticed only
when the object is closed, and has its place there.
-/

/-- Read decoded members as own fields and an inner record. -/
def interpretExtended (route : Route) (fields : List Field)
    (inner : List (String × Value) -> Except Mismatch β) (members : List (String × Value)) :
    Except Mismatch (Row fields × β) := do
  let (slots, rest) ← interpretMembers route (Slots.empty fields) members
  let row ← slots.complete
  let base ← inner rest
  .ok (row, base)

/-- A record of own fields around an inner record, which gives its members
first when it is written. -/
def Codec.extending (name : String) (fields : List Field)
    (inner : List (String × Value) -> Except Mismatch β)
    (innerMembers : β -> List (String × Value)) : Codec (Row fields × β) where
  read allowance node :=
    match node, allowance with
    | .leaf token, _ => refuseScalar name token
    | .array start _ _, _ =>
        .error (.ofMismatch (.wrongType .sequence (.record name)) (.facing start.start))
    | .object start _ _, 0 => .error (Node.tooDeep start)
    | .object _ members ending, allowance + 1 => do
        let (slots, rest) ← readMembers .buffered allowance (Slots.empty fields) members
        ending.read
        located (objectMark ending) do
          let row ← slots.complete
          let base ← inner rest
          .ok (row, base)
  interpret route value :=
    match value with
    | .object members => interpretExtended route fields inner members
    | value => .error (.wrongType value.found (.record name))
  write data := .object (innerMembers data.2 ++ data.1.members)

end Record
end RepoInspector
