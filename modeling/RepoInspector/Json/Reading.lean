import RepoInspector.Json.Tree

namespace RepoInspector
namespace Json

/-!
# Passing over and buffering

The two readers of a tree that want no particular shape.  `Node.pass` only
asks that the value is grammatical.  `Node.buffer` decodes it completely, so
it also asks that every text is properly encoded, that every number is in
range, and that containers are nested no deeper than an allowance.
-/

/-- The number of containers that may be open at once when they are decoded. -/
def nestingAllowance : Nat := 127

namespace ArrayEnd

/-- Whether an array that is passed over ends well. -/
def pass : ArrayEnd -> Except Fault Unit
  | .closed _ | .broken => .ok ()
  | .afterComma close => .error (close.unexpected .endInValue .valueDue)
  | .unseparated next => .error (next.unexpected .endInArray .commaOrArrayEndDue)

/-- Whether an array that is decoded item by item ends well. -/
def read : ArrayEnd -> Except Fault Unit
  | .closed _ | .broken => .ok ()
  | .afterComma close => .error (close.unexpected .endInValue .trailingComma)
  | .unseparated next => .error (next.unexpected .endInArray .commaOrArrayEndDue)

end ArrayEnd

namespace ObjectEnd

/-- Whether an object that is passed over ends well. -/
def pass : ObjectEnd -> Except Fault Unit
  | .closed _ | .broken => .ok ()
  | .keyless _ next => .error (next.unexpected .endInObject .keyDue)
  | .unseparated next => .error (next.unexpected .endInObject .commaOrObjectEndDue)

/-- Whether an object that is decoded member by member ends well. -/
def read : ObjectEnd -> Except Fault Unit
  | .closed _ | .broken => .ok ()
  | .keyless false next => .error (next.unexpected .endInObject .keyDue)
  | .keyless true next =>
      match next.lexeme with
      | .objectEnd => .error (next.unexpected .endInValue .trailingComma)
      | _ => .error (next.unexpected .endInValue .keyDue)
  | .unseparated next => .error (next.unexpected .endInObject .commaOrObjectEndDue)

end ObjectEnd

namespace Key

/-- Whether a name is followed by a colon. -/
def colon (key : Key) : Except Fault Unit :=
  match key.next.lexeme with
  | .colon => .ok ()
  | _ => .error (key.next.unexpected .endInObject .colonDue)

/-- The name of a member. -/
def read (key : Key) : Except Fault String :=
  match key.name.lexeme with
  | .text spelling => spelling.read key.name.stop key.name.start
  | _ => .error (key.name.unexpected .endInObject .keyDue)

/-- Pass over the name of a member and the colon after it. -/
def pass (key : Key) : Except Fault Unit := do
  key.name.pass
  key.colon

end Key

namespace Node

mutual

/-- Pass over a value. -/
def pass : Node -> Except Fault Unit
  | .leaf token => token.pass
  | .array _ items ending => do
      passItems items
      ending.pass
  | .object _ members ending => do
      passMembers members
      ending.pass

def passItems : List Node -> Except Fault Unit
  | [] => .ok ()
  | item :: items => do
      item.pass
      passItems items

def passMembers : List (Key × Node) -> Except Fault Unit
  | [] => .ok ()
  | (key, node) :: members => do
      key.pass
      node.pass
      passMembers members

end

/-- The fault of a container that would be nested too deep. -/
def tooDeep (start : Token) : Fault :=
  .placed .tooDeep (.after (start.start + 1))

mutual

/-- Decode a value completely, with `allowance` further containers open at once. -/
def buffer (allowance : Nat) : Node -> Except Fault Value
  | .leaf token => token.read
  | .array start items ending =>
      match allowance with
      | 0 => .error (tooDeep start)
      | allowance + 1 => do
          let values ← bufferItems allowance items
          ending.read
          .ok (.array values)
  | .object start members ending =>
      match allowance with
      | 0 => .error (tooDeep start)
      | allowance + 1 => do
          let values ← bufferMembers allowance members
          ending.read
          .ok (.object values)

def bufferItems (allowance : Nat) : List Node -> Except Fault (List Value)
  | [] => .ok []
  | item :: items => do
      let value ← item.buffer allowance
      let values ← bufferItems allowance items
      .ok (value :: values)

def bufferMembers (allowance : Nat) :
    List (Key × Node) -> Except Fault (List (String × Value))
  | [] => .ok []
  | (key, node) :: members => do
      let name ← key.read
      key.colon
      let value ← node.buffer allowance
      let values ← bufferMembers allowance members
      .ok ((name, value) :: values)

end

end Node

namespace Tree

/-- A supply that fails while no container is open has no place in the document. -/
def unopened (root : Node) (result : Except Fault α) : Except Fault α :=
  match root, result with
  | .leaf _, .error fault => .error fault.bare
  | _, result => result

/-- Nothing may follow the value of a document. -/
def atEnd (tree : Tree) : Except Fault Unit :=
  match tree.trailing with
  | none => .ok ()
  | some token =>
      match token.lexeme with
      | .finish none => .ok ()
      | .finish (some reason) => .error ⟨.failure reason, none⟩
      | _ => .error (.placed .trailingCharacters (.after (token.start + 1)))

/-- Read the value of a document with a reader of nodes. -/
def read (reader : Node -> Except Fault α) (tree : Tree) : Except Fault α := do
  let value ← unopened tree.root (reader tree.root)
  tree.atEnd
  .ok value

/-- Decode a document completely. -/
def buffer (tree : Tree) : Except Fault Value :=
  tree.read (Node.buffer nestingAllowance)

end Tree
end Json
end RepoInspector
