import RepoInspector.Json.Token

namespace RepoInspector
namespace Json

/-!
# Trees

A tree is the structure of a document before any text or number in it is
decoded.  It exists for every list of tokens: where the grammar is violated
the tree records how, and since nothing after such a place can matter, there
is at most one of them, at the right edge.  Passing a value over, buffering
it and reading it as a record are then three readers of one tree, and they
differ only in what they ask of it.

The tree grows one token at a time.  What is still open is a list of frames,
so no nesting is too deep to be passed over.
-/

/-- How an array ends. -/
inductive ArrayEnd
  | closed (close : Token)
  /-- A comma is followed by the closing bracket. -/
  | afterComma (close : Token)
  /-- An item is followed by neither a comma nor the closing bracket. -/
  | unseparated (next : Token)
  /-- The last item itself breaks off. -/
  | broken

/-- How an object ends. -/
inductive ObjectEnd
  | closed (close : Token)
  /-- A name is due and another token is found, perhaps after a comma. -/
  | keyless (comma : Bool) (next : Token)
  /-- A member is followed by neither a comma nor the closing brace. -/
  | unseparated (next : Token)
  /-- The last member itself breaks off. -/
  | broken

/-- The name of a member, and the token after it, which should be a colon. -/
structure Key where
  name : Token
  next : Token

inductive Node
  /-- A scalar, or whatever stands where a value is due. -/
  | leaf (token : Token)
  | array (start : Token) (items : List Node) (ending : ArrayEnd)
  | object (start : Token) (members : List (Key × Node)) (ending : ObjectEnd)

/-- A container that is being read, with what it holds so far, latest first. -/
inductive Frame
  | array (start : Token) (items : List Node)
  /-- An object whose member of this key is being read. -/
  | object (start : Token) (members : List (Key × Node)) (key : Key)

/-- The container around a value that breaks off. -/
def Frame.breakOff (inner : Node) : Frame -> Node
  | .array start items => .array start (inner :: items).reverse .broken
  | .object start members key => .object start ((key, inner) :: members).reverse .broken

/-- What has been read of a document, by what is due next. -/
inductive Reading
  /-- A value. -/
  | value (frames : List Frame)
  /-- The first item of an array, or its end. -/
  | firstItem (start : Token) (frames : List Frame)
  /-- A comma or the end of an array. -/
  | item (start : Token) (items : List Node) (frames : List Frame)
  /-- The next item of an array, after a comma. -/
  | nextItem (start : Token) (items : List Node) (frames : List Frame)
  /-- A name, or without a comma before it the end of an object. -/
  | keyOrEnd (start : Token) (members : List (Key × Node)) (comma : Bool) (frames : List Frame)
  /-- The colon after a name. -/
  | colon (start : Token) (members : List (Key × Node)) (name : Token) (frames : List Frame)
  /-- A comma or the end of an object. -/
  | member (start : Token) (members : List (Key × Node)) (frames : List Frame)
  /-- Nothing but the end of the document. -/
  | finished (root : Node)
  /-- The document is read, with the token after its value if there is a whole one. -/
  | done (root : Node) (trailing : Option Token)

namespace Reading

/-- A value is complete and goes where it belongs. -/
def deliver (node : Node) : List Frame -> Reading
  | [] => .finished node
  | .array start items :: frames => .item start (node :: items) frames
  | .object start members key :: frames => .member start ((key, node) :: members) frames

/-- A value breaks off, and with it everything around it. -/
def breakOff (node : Node) (frames : List Frame) : Reading :=
  .done (frames.foldl Frame.breakOff node) none

/-- A token where a value is due. -/
def takeValue (frames : List Frame) (token : Token) : Reading :=
  match token.lexeme with
  | .arrayStart => .firstItem token frames
  | .objectStart => .keyOrEnd token [] false frames
  | .null | .boolean _ | .number _ => deliver (.leaf token) frames
  | .text spelling =>
      if spelling.ending = .closed then deliver (.leaf token) frames
      else breakOff (.leaf token) frames
  | _ => breakOff (.leaf token) frames

/-- A token where a name is due. -/
def takeKey (start : Token) (members : List (Key × Node)) (comma : Bool)
    (frames : List Frame) (token : Token) : Reading :=
  match token.lexeme, comma with
  | .text spelling, _ =>
      if spelling.ending = .closed then .colon start members token frames
      else breakOff
        (.object start ((⟨token, token⟩, .leaf token) :: members).reverse .broken) frames
  | .objectEnd, false => deliver (.object start members.reverse (.closed token)) frames
  | _, _ => breakOff (.object start members.reverse (.keyless comma token)) frames

def step (token : Token) : Reading -> Reading
  | .value frames => takeValue frames token
  | .firstItem start frames =>
      match token.lexeme with
      | .arrayEnd => deliver (.array start [] (.closed token)) frames
      | .finish _ => breakOff (.array start [] (.unseparated token)) frames
      | _ => takeValue (.array start [] :: frames) token
  | .item start items frames =>
      match token.lexeme with
      | .comma => .nextItem start items frames
      | .arrayEnd => deliver (.array start items.reverse (.closed token)) frames
      | _ => breakOff (.array start items.reverse (.unseparated token)) frames
  | .nextItem start items frames =>
      match token.lexeme with
      | .arrayEnd => breakOff (.array start items.reverse (.afterComma token)) frames
      | _ => takeValue (.array start items :: frames) token
  | .keyOrEnd start members comma frames => takeKey start members comma frames token
  | .colon start members name frames =>
      match token.lexeme with
      | .colon => .value (.object start members ⟨name, token⟩ :: frames)
      | _ => breakOff
          (.object start ((⟨name, token⟩, .leaf token) :: members).reverse .broken) frames
  | .member start members frames =>
      match token.lexeme with
      | .comma => .keyOrEnd start members true frames
      | .objectEnd => deliver (.object start members.reverse (.closed token)) frames
      | _ => breakOff (.object start members.reverse (.unseparated token)) frames
  | .finished root => .done root (some token)
  | .done root trailing => .done root trailing

end Reading

/-- The structure of a document: its value, and the token after it. -/
structure Tree where
  root : Node
  trailing : Option Token

/-- The tree of tokens.  A list that says how the document ends always leads
to a finished reading; any other is taken to end with its last token. -/
def Tree.ofTokens (tokens : List Token) : Tree :=
  match tokens.foldl (fun reading token => Reading.step token reading) (Reading.value []) with
  | .done root trailing => ⟨root, trailing⟩
  | .finished root => ⟨root, none⟩
  | _ => ⟨.leaf ⟨.finish none, 0, 0⟩, none⟩

def Supply.tree (supply : Supply) : Tree :=
  Tree.ofTokens supply.tokens

end Json
end RepoInspector
