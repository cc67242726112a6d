import RepoInspector.Json.Feed
import RepoInspector.Record.Reading

namespace RepoInspector
namespace Record

open Json

/-!
# Documents that hold a record

A document can be read in three ways: as a text, as a stream of bytes, or by
decoding it completely and reading the settled value.  A text and a stream are
scanned by two scanners, and what they find is read alike.  In the third way, a
document that is decoded has no places any more.
-/

inductive Way
  | text
  | stream
  | settled
deriving DecidableEq, Repr

/-- How a document is supplied when it is read in a way. -/
def Way.medium : Way -> Medium
  | .text | .settled => .text
  | .stream => .stream

/-- What is reported of a document that cannot be read. -/
structure DocumentFault where
  category : Category
  message : String
deriving DecidableEq, Repr

def DocumentFault.ofFault (bytes : List UInt8) (medium : Medium) (fault : Fault) :
    DocumentFault :=
  ⟨fault.category, fault.message bytes medium⟩

/-- The supply of a text. -/
def supplyOfText (text : String) : Supply := ⟨text.toUTF8.toList, none⟩

/-- Report a fault in terms of the document in which it was met. -/
def reported (medium : Medium) (supply : Supply) : Except Fault α -> Except DocumentFault α
  | .ok a => .ok a
  | .error fault => .error (.ofFault supply.bytes medium fault)

/-- Decode a document and interpret the settled value. -/
def interpretDocument (interpret : Value -> Except Mismatch α) (supply : Supply) :
    Except Fault α := do
  let value ← supply.tree.buffer
  match interpret value.settled with
  | .ok a => .ok a
  | .error mismatch => .error ⟨.mismatch mismatch, none⟩

namespace Codec

/-- Read a document directly, with all its bytes in hand. -/
def ofDocument (codec : Codec α) (supply : Supply) : Except Fault α :=
  supply.tree.read (codec.read nestingAllowance)

/-- Read a document directly, byte by byte. -/
def ofFeed (codec : Codec α) (feed : Feed) : Except Fault α :=
  feed.tree.read (codec.read nestingAllowance)

/-- Read a document along a way. -/
def decode (codec : Codec α) (way : Way) (supply : Supply) : Except DocumentFault α :=
  reported way.medium supply <|
    match way with
    | .text => codec.ofDocument supply
    | .stream => codec.ofFeed (.ofSupply supply)
    | .settled => interpretDocument (codec.interpret .settled) supply

/-- The document that holds a record. -/
def encode (codec : Codec α) (style : Style) (a : α) : String :=
  (codec.write a).toText style

end Codec
end Record
end RepoInspector
