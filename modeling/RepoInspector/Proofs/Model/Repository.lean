import RepoInspector.Model.Repository
import RepoInspector.Proofs.Model.Account

namespace RepoInspector
namespace Model

open Json
open Record

/-!
# What repositories and permissions are

A repository and a permissions block are records of their own.  A repository
with permissions is one object that holds the members of both, and because
those of the repository are handed on as values, everything in it but the
permissions has to decode.
-/

namespace Repository

/-- What the members of a repository mean. -/
structure Told (entries : List (String × Form)) (repository : Repository) : Prop where
  id : Required "id" IsNatural entries repository.id
  name : Required "name" IsText entries repository.name
  fullName : Required "full_name" IsText entries repository.fullName
  description : Optional "description" IsText entries repository.description
  isPrivate : Defaulted "private" false IsBoolean entries repository.isPrivate
  isFork : Defaulted "fork" false IsBoolean entries repository.isFork
  isArchived : Defaulted "archived" false IsBoolean entries repository.isArchived
  owner : Required "owner" IsAccount entries repository.owner
  htmlUrl : Optional "html_url" IsText entries repository.htmlUrl
  url : Optional "url" IsText entries repository.url
  cloneUrl : Optional "clone_url" IsText entries repository.cloneUrl
  sshUrl : Optional "ssh_url" IsText entries repository.sshUrl
  defaultBranch : Optional "default_branch" IsText entries repository.defaultBranch
  stars : Defaulted "stargazers_count" 0 IsNatural entries repository.stars
  forks : Defaulted "forks_count" 0 IsNatural entries repository.forks
  createdAt : Optional "created_at" IsInstant entries repository.createdAt
  updatedAt : Optional "updated_at" IsInstant entries repository.updatedAt
  pushedAt : Optional "pushed_at" IsInstant entries repository.pushedAt

def memberNames : List String :=
  ["id", "name", "full_name", "description", "private", "fork", "archived", "owner", "html_url",
    "url", "clone_url", "ssh_url", "default_branch", "stargazers_count", "forks_count",
    "created_at", "updated_at", "pushed_at"]

theorem distinct_names : (names fields).Nodup := by decide

theorem lawful_fields : LawfulFields fields 1 := by
  have shallow : 1 ≤ nestingAllowance := by decide
  have text := text_follows.lawful shallow
  have number := unsigned_follows.lawful shallow
  have boolean := boolean_follows.lawful shallow
  have owner := Account.codec_follows.lawful shallow
  have optionalText := (Codec.optional_follows text_follows).lawful shallow
  have optionalMoment := (Codec.optional_follows instant_follows).lawful shallow
  exact .cons number (.cons text (.cons text (.cons optionalText (.cons boolean (.cons boolean
    (.cons boolean (.cons owner (.cons optionalText (.cons optionalText (.cons optionalText
    (.cons optionalText (.cons optionalText (.cons number (.cons number (.cons optionalMoment
    (.cons optionalMoment (.cons optionalMoment .nil)))))))))))))))))

theorem told_iff (entries : List (String × Form)) (repository : Repository) :
    Row.Told Field.Means entries repository.toRow ↔ Told entries repository := by
  have shallow : 1 ≤ nestingAllowance := by decide
  constructor
  · rintro ⟨id, name, fullName, description, isPrivate, isFork, isArchived, owner, htmlUrl, url,
      cloneUrl, sshUrl, defaultBranch, stars, forks, createdAt, updatedAt, pushedAt, _⟩
    exact
      { id := (stores_required unsigned_follows shallow).mp id
        name := (stores_required text_follows shallow).mp name
        fullName := (stores_required text_follows shallow).mp fullName
        description := (stores_optional text_follows shallow).mp description
        isPrivate := (stores_defaulted boolean_follows shallow).mp isPrivate
        isFork := (stores_defaulted boolean_follows shallow).mp isFork
        isArchived := (stores_defaulted boolean_follows shallow).mp isArchived
        owner := (stores_required Account.codec_follows shallow).mp owner
        htmlUrl := (stores_optional text_follows shallow).mp htmlUrl
        url := (stores_optional text_follows shallow).mp url
        cloneUrl := (stores_optional text_follows shallow).mp cloneUrl
        sshUrl := (stores_optional text_follows shallow).mp sshUrl
        defaultBranch := (stores_optional text_follows shallow).mp defaultBranch
        stars := (stores_defaulted unsigned_follows shallow).mp stars
        forks := (stores_defaulted unsigned_follows shallow).mp forks
        createdAt := (stores_optional instant_follows shallow).mp createdAt
        updatedAt := (stores_optional instant_follows shallow).mp updatedAt
        pushedAt := (stores_optional instant_follows shallow).mp pushedAt }
  · intro told
    exact ⟨(stores_required unsigned_follows shallow).mpr told.id,
      (stores_required text_follows shallow).mpr told.name,
      (stores_required text_follows shallow).mpr told.fullName,
      (stores_optional text_follows shallow).mpr told.description,
      (stores_defaulted boolean_follows shallow).mpr told.isPrivate,
      (stores_defaulted boolean_follows shallow).mpr told.isFork,
      (stores_defaulted boolean_follows shallow).mpr told.isArchived,
      (stores_required Account.codec_follows shallow).mpr told.owner,
      (stores_optional text_follows shallow).mpr told.htmlUrl,
      (stores_optional text_follows shallow).mpr told.url,
      (stores_optional text_follows shallow).mpr told.cloneUrl,
      (stores_optional text_follows shallow).mpr told.sshUrl,
      (stores_optional text_follows shallow).mpr told.defaultBranch,
      (stores_defaulted unsigned_follows shallow).mpr told.stars,
      (stores_defaulted unsigned_follows shallow).mpr told.forks,
      (stores_optional instant_follows shallow).mpr told.createdAt,
      (stores_optional instant_follows shallow).mpr told.updatedAt,
      (stores_optional instant_follows shallow).mpr told.pushedAt, trivial⟩

end Repository

/-- A repository is an object, or an array of its members in order. -/
def IsRepository (form : Form) (repository : Repository) : Prop :=
  Exists fun entries => Lists Repository.memberNames form entries ∧ repository.Told entries

theorem Repository.codec_follows : Repository.codec.Follows 2 IsRepository :=
  Codec.record_through_follows lawful_fields distinct_names (fun _ => rfl) (fun _ => rfl) told_iff

namespace Permissions

/-- What the members of a permissions block mean. -/
structure Told (entries : List (String × Form)) (permissions : Permissions) : Prop where
  admin : Defaulted "admin" false IsBoolean entries permissions.admin
  push : Defaulted "push" false IsBoolean entries permissions.push
  pull : Defaulted "pull" false IsBoolean entries permissions.pull

def memberNames : List String := ["admin", "push", "pull"]

theorem distinct_names : (names fields).Nodup := by decide

theorem lawful_fields : LawfulFields fields 0 := by
  have boolean := boolean_follows.lawful (Nat.zero_le _)
  exact .cons boolean (.cons boolean (.cons boolean .nil))

theorem told_iff (entries : List (String × Form)) (permissions : Permissions) :
    Row.Told Field.Means entries permissions.toRow ↔ Told entries permissions := by
  have shallow := Nat.zero_le nestingAllowance
  constructor
  · intro given
    rcases given with ⟨admin, push, pull, _⟩
    exact
      { admin := (stores_defaulted boolean_follows shallow).mp admin
        push := (stores_defaulted boolean_follows shallow).mp push
        pull := (stores_defaulted boolean_follows shallow).mp pull }
  · intro told
    exact ⟨(stores_defaulted boolean_follows shallow).mpr told.admin,
      (stores_defaulted boolean_follows shallow).mpr told.push,
      (stores_defaulted boolean_follows shallow).mpr told.pull, trivial⟩

end Permissions

/-- A permissions block is an object, or an array of its members in order. -/
def IsPermissions (form : Form) (permissions : Permissions) : Prop :=
  Exists fun entries => Lists Permissions.memberNames form entries ∧ permissions.Told entries

theorem Permissions.codec_follows : Permissions.codec.Follows 1 IsPermissions :=
  Codec.record_through_follows lawful_fields distinct_names (fun _ => rfl) (fun _ => rfl) told_iff

namespace PermittedRepository

/-- What the members of a repository with permissions mean. -/
structure Told (entries : List (String × Form)) (permitted : PermittedRepository) : Prop where
  repository : permitted.repository.Told entries
  permissions : Optional "permissions" IsPermissions entries permitted.permissions

/-- The members besides those of the repository. -/
def ownNames : List String := ["permissions"]

theorem lawful_fields : LawfulFields fields 1 :=
  .cons ((Codec.optional_follows Permissions.codec_follows).lawful (by decide)) .nil

theorem distinct_names : (names fields).Nodup := by decide

/-- What the entries of one object tell both layers. -/
abbrev RowsTold (entries : List (String × Form))
    (rows : Row fields × Row Repository.fields) : Prop :=
  ExtendedTold fields
    (fun entries (row : Row Repository.fields) => Row.Told Field.Means entries row) entries rows

theorem told_iff (entries : List (String × Form)) (permitted : PermittedRepository) :
    RowsTold entries permitted.toRow ↔ Told entries permitted := by
  have shallow : 1 ≤ nestingAllowance := by decide
  have apart : ∀ name ∈ names Repository.fields, name ∉ names fields := by decide
  have inner : Row.Told Field.Means (others fields entries) permitted.repository.toRow ↔
      permitted.repository.Told entries :=
    (Row.told_of_named (fun name listed => named_others (apart name listed) entries) _).trans
      (Repository.told_iff entries permitted.repository)
  constructor
  · intro given
    rcases given with ⟨⟨permissions, _⟩, repository⟩
    exact ⟨inner.mp repository, (stores_optional Permissions.codec_follows shallow).mp permissions⟩
  · intro given
    rcases given with ⟨repository, permissions⟩
    exact ⟨⟨(stores_optional Permissions.codec_follows shallow).mpr permissions, trivial⟩,
      inner.mpr repository⟩

end PermittedRepository

/-- A repository with permissions is an object.  All its members but the
permissions are decoded, within the allowance that is left inside the object. -/
def IsPermittedRepository (form : Form) (permitted : PermittedRepository) : Prop :=
  Exists fun members => Exists fun entries => form = .object members ∧
    Form.Keyed members entries ∧
    (∀ entry ∈ entries, entry.1 ∉ PermittedRepository.ownNames ->
      entry.2.Decodes (nestingAllowance - 1)) ∧
    permitted.Told entries

theorem PermittedRepository.codec_follows :
    PermittedRepository.codec.Follows nestingAllowance IsPermittedRepository :=
  Codec.extending_through_follows lawful_fields (by decide) distinct_names
    (innerFollows_record Repository.lawful_fields Repository.distinct_names .buffered)
    Row.members (fun _ => rfl) (fun _ => rfl) told_iff

end Model
end RepoInspector
