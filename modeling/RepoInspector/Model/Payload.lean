import RepoInspector.Model.DetailedRepository
import RepoInspector.Record.Document

namespace RepoInspector
namespace Model

open Json
open Record

/-!
# Payloads

A payload is a document that holds a detailed repository.
-/

/-- Why a payload cannot be had. -/
inductive PayloadError
  /-- The document cannot be read. -/
  | parse (fault : DocumentFault)
  /-- The bytes cannot be had. -/
  | io (reason : String)
deriving DecidableEq, Repr

def PayloadError.message : PayloadError -> String
  | .parse fault => "JSON parse error: " ++ fault.message
  | .io reason => "IO error: " ++ reason

/-- A supply that fails while the document is read is reported as a fault of
the document. -/
def asPayload : Except DocumentFault α -> Except PayloadError α
  | .ok a => .ok a
  | .error fault => .error (.parse fault)

namespace DetailedRepository

def ofJson (text : String) : Except PayloadError DetailedRepository :=
  asPayload (codec.decode .text (supplyOfText text))

def ofStream (supply : Supply) : Except PayloadError DetailedRepository :=
  asPayload (codec.decode .stream supply)

def toJson (repository : DetailedRepository) : String :=
  codec.encode .pretty repository

end DetailedRepository
end Model
end RepoInspector
