import RepoInspector.Model.Payload

namespace RepoInspector
namespace Model

open Json
open Record

/-!
# Sessions

A session holds one detailed repository and takes requests.  Some change the
repository, some replace it, and some only ask about it.  The arguments of a
request are documents; when one of them cannot be read the repository stays
as it is.
-/

/-- A change of the repository of a session. -/
inductive Edit
  | mergeSettings (squash merge rebase : Option Bool)
  | organization (organization : Organization)
  | lineage (parent source : Repository)
  | counts (network subscribers : Option UInt64)
  /-- Start again from the same repository with these permissions. -/
  | permissions (permissions : Option Permissions)
  /-- Start again from the top of the fork network. -/
  | rebaseOnRoot
  /-- Start again without any details. -/
  | reset
  /-- Start again from another repository. -/
  | replace (repository : DetailedRepository)

namespace DetailedRepository

def edit (detailed : DetailedRepository) : Edit -> DetailedRepository
  | .mergeSettings squash merge rebase => detailed.withMergeSettings squash merge rebase
  | .organization organization => detailed.withOrganization organization
  | .lineage parent source => detailed.withLineage parent source
  | .counts network subscribers => detailed.withCounts network subscribers
  | .permissions permissions => ofBase ⟨detailed.repository, permissions⟩
  | .rebaseOnRoot => ofBase ⟨detailed.forkRoot, detailed.base.permissions⟩
  | .reset => ofBase detailed.base
  | .replace repository => repository

end DetailedRepository

/-- What a session can be asked for. -/
inductive Request
  | mergeSettings (squash merge rebase : Option Bool)
  | organization (json : String)
  | lineage (parent source : String)
  | counts (network subscribers : Option UInt64)
  | permissions (json : Option String)
  | rebaseOnRoot
  | reset
  /-- Take the repository of a payload. -/
  | parse (json : String)
  /-- Write the payload and read it again. -/
  | roundTrip
  /-- Whether a payload holds the same repository. -/
  | equals (json : String)
  /-- Whether a merge method is allowed. -/
  | allows (json : String)

inductive RequestError
  /-- An argument that is a part of a payload cannot be read. -/
  | part (fault : DocumentFault)
  /-- A whole payload cannot be read. -/
  | payload (error : PayloadError)

/-- What a request comes to: a change, or an answer that changes nothing. -/
inductive Outcome
  | edit (edit : Edit)
  | answer (holds : Bool)

/-- Read an argument that is a part of a payload. -/
def readPart (codec : Codec α) (json : String) : Except RequestError α :=
  match codec.decode .text (supplyOfText json) with
  | .ok a => .ok a
  | .error fault => .error (.part fault)

/-- Read an argument that is a whole payload. -/
def readPayload (result : Except PayloadError α) : Except RequestError α :=
  match result with
  | .ok a => .ok a
  | .error error => .error (.payload error)

/-- What a request comes to in a session that holds a repository. -/
def Request.outcome (detailed : DetailedRepository) :
    Request -> Except RequestError Outcome
  | .mergeSettings squash merge rebase => .ok (.edit (.mergeSettings squash merge rebase))
  | .organization json => do
      let organization ← readPart Organization.codec json
      .ok (.edit (.organization organization))
  | .lineage parent source => do
      let parent ← readPart Repository.codec parent
      let source ← readPart Repository.codec source
      .ok (.edit (.lineage parent source))
  | .counts network subscribers => .ok (.edit (.counts network subscribers))
  | .permissions none => .ok (.edit (.permissions none))
  | .permissions (some json) => do
      let permissions ← readPart Permissions.codec json
      .ok (.edit (.permissions (some permissions)))
  | .rebaseOnRoot => .ok (.edit .rebaseOnRoot)
  | .reset => .ok (.edit .reset)
  | .parse json => do
      let repository ← readPayload (DetailedRepository.ofJson json)
      .ok (.edit (.replace repository))
  | .roundTrip => do
      let repository ← readPayload
        (DetailedRepository.ofStream (supplyOfText detailed.toJson))
      .ok (.edit (.replace repository))
  | .equals json => do
      let repository ← readPayload (DetailedRepository.ofJson json)
      .ok (.answer (decide (repository = detailed)))
  | .allows json =>
      match MergeMethod.decode .text (supplyOfText json) with
      | .ok method => .ok (.answer (detailed.allows method))
      | .error fault => .error (.part fault)

/-- The repository of a session after a request. -/
def DetailedRepository.after (detailed : DetailedRepository) (request : Request) :
    DetailedRepository :=
  match request.outcome detailed with
  | .ok (.edit edit) => detailed.edit edit
  | _ => detailed

end Model
end RepoInspector
