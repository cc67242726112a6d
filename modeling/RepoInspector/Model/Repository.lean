import RepoInspector.Model.Account

namespace RepoInspector
namespace Model

open Record

/-!
# Repositories and permissions

A repository as other records embed it, and the same together with what the
reader of the payload may do there.  A payload names permissions only for a
known reader, so a missing block grants nothing.
-/

structure Repository where
  id : UInt64
  name : String
  fullName : String
  description : Option String
  isPrivate : Bool
  isFork : Bool
  isArchived : Bool
  owner : Account
  htmlUrl : Option String
  /-- Where the repository itself can be queried. -/
  url : Option String
  cloneUrl : Option String
  sshUrl : Option String
  defaultBranch : Option String
  stars : UInt64
  forks : UInt64
  createdAt : Option Time.Instant
  updatedAt : Option Time.Instant
  pushedAt : Option Time.Instant
deriving DecidableEq

namespace Repository

def fields : List Field :=
  [.required "id" .unsigned,
    .required "name" .text,
    .required "full_name" .text,
    .optional "description" .text,
    .defaulted "private" .boolean false,
    .defaulted "fork" .boolean false,
    .defaulted "archived" .boolean false,
    .required "owner" Account.codec,
    .optional "html_url" .text,
    .optional "url" .text,
    .optional "clone_url" .text,
    .optional "ssh_url" .text,
    .optional "default_branch" .text,
    .defaulted "stargazers_count" .unsigned 0,
    .defaulted "forks_count" .unsigned 0,
    .optional "created_at" .instant,
    .optional "updated_at" .instant,
    .optional "pushed_at" .instant]

def ofRow : Row fields -> Repository
  | (id, name, fullName, description, isPrivate, isFork, isArchived, owner, htmlUrl, url,
      cloneUrl, sshUrl, defaultBranch, stars, forks, createdAt, updatedAt, pushedAt, ()) =>
      { id, name, fullName, description, isPrivate, isFork, isArchived, owner, htmlUrl, url,
        cloneUrl, sshUrl, defaultBranch, stars, forks, createdAt, updatedAt, pushedAt }

def toRow (repository : Repository) : Row fields :=
  (repository.id, repository.name, repository.fullName, repository.description,
    repository.isPrivate, repository.isFork, repository.isArchived, repository.owner,
    repository.htmlUrl, repository.url, repository.cloneUrl, repository.sshUrl,
    repository.defaultBranch, repository.stars, repository.forks, repository.createdAt,
    repository.updatedAt, repository.pushedAt, ())

def codec : Codec Repository :=
  (Codec.record "GitHubRepo" fields).through ofRow toRow

/-- The login of the account that owns a repository. -/
def ownerLogin (repository : Repository) : String :=
  repository.owner.login

end Repository

/-- What a reader of the payload may do in a repository. -/
structure Permissions where
  admin : Bool := false
  push : Bool := false
  pull : Bool := false
deriving DecidableEq

namespace Permissions

/-- The permissions of a block that names none. -/
def none : Permissions := {}

def fields : List Field :=
  [.defaulted "admin" .boolean false,
    .defaulted "push" .boolean false,
    .defaulted "pull" .boolean false]

def ofRow : Row fields -> Permissions
  | (admin, push, pull, ()) => { admin, push, pull }

def toRow (permissions : Permissions) : Row fields :=
  (permissions.admin, permissions.push, permissions.pull, ())

def codec : Codec Permissions :=
  (Codec.record "GitHubRepoPermissions" fields).through ofRow toRow

end Permissions

/-- A repository with the permissions of the reader of the payload, if known. -/
structure PermittedRepository where
  repository : Repository
  permissions : Option Permissions
deriving DecidableEq

namespace PermittedRepository

/-- The fields besides those of the repository. -/
def fields : List Field :=
  [.optional "permissions" Permissions.codec]

def ofRow : Row fields × Row Repository.fields -> PermittedRepository
  | ((permissions, ()), repository) => ⟨Repository.ofRow repository, permissions⟩

def toRow (permitted : PermittedRepository) : Row fields × Row Repository.fields :=
  ((permitted.permissions, ()), permitted.repository.toRow)

def codec : Codec PermittedRepository :=
  (Codec.extending "GitHubRepoWithPermissions" fields
    (interpretRecord .buffered Repository.fields) Row.members).through ofRow toRow

def isAdmin (permitted : PermittedRepository) : Bool :=
  permitted.permissions.any Permissions.admin

def canPush (permitted : PermittedRepository) : Bool :=
  permitted.permissions.any Permissions.push

def canPull (permitted : PermittedRepository) : Bool :=
  permitted.permissions.any Permissions.pull

end PermittedRepository
end Model
end RepoInspector
