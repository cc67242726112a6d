import RepoInspector.Record.Reading

namespace RepoInspector
namespace Model

open Record

/-!
# Accounts and organizations

The owner of a repository is an account, of a person, an organization or a
program.  An organization that a repository belongs to is described in a
record of its own.
-/

/-- An account, in the short form in which a repository names its owner. -/
structure Account where
  login : String
  id : UInt64
  avatarUrl : Option String
  htmlUrl : Option String
  /-- The kind of account, such as that of an organization, in the payload's own word. -/
  kind : Option String
deriving DecidableEq

namespace Account

def fields : List Field :=
  [.required "login" .text,
    .required "id" .unsigned,
    .optional "avatar_url" .text,
    .optional "html_url" .text,
    .optional "type" .text]

def ofRow : Row fields -> Account
  | (login, id, avatarUrl, htmlUrl, kind, ()) => { login, id, avatarUrl, htmlUrl, kind }

def toRow (account : Account) : Row fields :=
  (account.login, account.id, account.avatarUrl, account.htmlUrl, account.kind, ())

def codec : Codec Account :=
  (Codec.record "GitHubUser" fields).through ofRow toRow

def isOrganization (account : Account) : Bool :=
  account.kind == some "Organization"

end Account

structure Organization where
  login : String
  id : UInt64
  name : Option String
  description : Option String
  url : Option String
  htmlUrl : Option String
  avatarUrl : Option String
deriving DecidableEq

namespace Organization

def fields : List Field :=
  [.required "login" .text,
    .required "id" .unsigned,
    .optional "name" .text,
    .optional "description" .text,
    .optional "url" .text,
    .optional "html_url" .text,
    .optional "avatar_url" .text]

def ofRow : Row fields -> Organization
  | (login, id, name, description, url, htmlUrl, avatarUrl, ()) =>
      { login, id, name, description, url, htmlUrl, avatarUrl }

def toRow (organization : Organization) : Row fields :=
  (organization.login, organization.id, organization.name, organization.description,
    organization.url, organization.htmlUrl, organization.avatarUrl, ())

def codec : Codec Organization :=
  (Codec.record "GitHubOrg" fields).through ofRow toRow

/-- The name of an organization, or its login when it has none. -/
def displayName (organization : Organization) : String :=
  organization.name.getD organization.login

end Organization
end Model
end RepoInspector
