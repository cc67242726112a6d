import RepoInspector.Record.Document

namespace RepoInspector
namespace Model

open Json
open Record

/-!
# Merge methods

The ways in which a pull request can be merged.  In a document a method is its
name, or an object whose only member has that name and the value null.
-/

inductive MergeMethod
  | merge
  | squash
  | rebase
deriving DecidableEq, Repr

namespace MergeMethod

/-- Every merge method, in the order in which they are listed. -/
def all : List MergeMethod := [.merge, .squash, .rebase]

def name : MergeMethod -> String
  | .merge => "merge"
  | .squash => "squash"
  | .rebase => "rebase"

def ofName? (name : String) : Option MergeMethod :=
  all.find? fun method => method.name = name

def ofName (name : String) : Except Mismatch MergeMethod :=
  match ofName? name with
  | some method => .ok method
  | none => .error (.unknownVariant name (all.map MergeMethod.name))

def toValue (method : MergeMethod) : Value := .text method.name

/-- The method that a decoded value denotes. -/
def ofValue : Value -> Except Mismatch MergeMethod
  | .text name => ofName name
  | .object [(name, value)] => do
      let method ← ofName name
      match value with
      | .null => .ok method
      | value => .error (.wrongType value.found .nothing)
  | .object _ => .error (.wrongValue .map .singleEntry)
  | value => .error (.wrongType value.found .variant)

/-!
## Reading a method from tokens

A document that holds nothing but a method is read token by token, because
each token is asked for in turn: what a report says depends on which token was
due.
-/

/-- A token that is a text and should name a method. -/
def ofSpelling (token : Token) (spelling : Spelling) : Except Fault MergeMethod := do
  let name ← spelling.read token.stop token.start
  located (.after token.stop) (ofName name)

/-- A token that should name a method after an opening brace. -/
def ofKey (token : Token) : Except Fault MergeMethod :=
  match token.lexeme with
  | .text spelling => ofSpelling token spelling
  | .objectEnd => .error (token.unexpected .endInObject .valueDue)
  | _ => .error (token.unexpected .endInObject .keyDue)

/-- A token that should be null. -/
def nothing (token : Token) : Except Fault Unit :=
  match token.lexeme with
  | .null => .ok ()
  | .arrayStart => .error (.ofMismatch (.wrongType .sequence .nothing) (.facing token.start))
  | .objectStart => .error (.ofMismatch (.wrongType .map .nothing) (.facing token.start))
  | _ => do
      let value ← token.read
      .error (.ofMismatch (.wrongType value.found .nothing) token.scalarMark)

/-- A token that should be a colon. -/
def colon (token : Token) : Except Fault Unit :=
  match token.lexeme with
  | .colon => .ok ()
  | _ => .error (token.unexpected .endInObject .colonDue)

/-- A token that should close the object of a method. -/
def close (token : Token) : Except Fault Unit :=
  match token.lexeme with
  | .objectEnd => .ok ()
  | .finish failure => .error (endFault .endInObject token.start failure)
  | _ => .error (.placed .valueDue (.facing token.start))

/-- A token after which nothing may follow. -/
def atEnd (token : Token) : Except Fault Unit :=
  match token.lexeme with
  | .finish none => .ok ()
  | .finish (some reason) => .error ⟨.failure reason, none⟩
  | _ => .error (.placed .trailingCharacters (.after (token.start + 1)))

/-- Take the next token.  The list of a document's tokens ends where no further
one is asked for, and its last token is returned again if one is. -/
def next (last : Token) : List Token -> Token × List Token
  | [] => (last, [])
  | token :: tokens => (token, tokens)

/-- A method at the front of the tokens, and the tokens after it. -/
def ofTokens (last : Token) (tokens : List Token) : Except Fault (MergeMethod × List Token) :=
  let (first, tokens) := next last tokens
  match first.lexeme with
  | .text spelling => do
      let method ← ofSpelling first spelling
      .ok (method, tokens)
  | .objectStart => do
      let (name, tokens) := next last tokens
      let method ← ofKey name
      let (after, tokens) := next last tokens
      colon after
      let (value, tokens) := next last tokens
      nothing value
      let (closing, tokens) := next last tokens
      close closing
      .ok (method, tokens)
  | _ => .error (first.unexpected .endInValue .valueDue)

/-- The method that the tokens of a supply hold.  A failure of the supply has
no place in it, because no record is open. -/
def ofSupply (supply : Supply) (tokens : List Token) : Except Fault MergeMethod :=
  let last : Token := ⟨.finish supply.failure, supply.bytes.length, supply.bytes.length⟩
  let result : Except Fault MergeMethod := do
    let (method, tokens) ← ofTokens last tokens
    atEnd (next last tokens).1
    .ok method
  match result with
  | .ok method => .ok method
  | .error fault => .error fault.bare

/-- Read a method with all bytes in hand. -/
def ofDocument (supply : Supply) : Except Fault MergeMethod :=
  ofSupply supply supply.tokens

/-- Read a method byte by byte. -/
def ofFeed (supply : Supply) : Except Fault MergeMethod :=
  ofSupply supply (Feed.ofSupply supply).tokens

/-- Read a document that holds a method along a way. -/
def decode (way : Way) (supply : Supply) : Except DocumentFault MergeMethod :=
  reported way.medium supply <|
    match way with
    | .text => ofDocument supply
    | .stream => ofFeed supply
    | .settled => interpretDocument ofValue supply

end MergeMethod
end Model
end RepoInspector
