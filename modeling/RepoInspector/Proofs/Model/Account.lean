import RepoInspector.Model.Account
import RepoInspector.Proofs.Model.Members

namespace RepoInspector
namespace Model

open Json
open Record

/-!
# What accounts and organizations are

Both are flat records of texts and numbers.
-/

namespace Account

/-- What the members of an account mean. -/
structure Told (entries : List (String × Form)) (account : Account) : Prop where
  login : Required "login" IsText entries account.login
  id : Required "id" IsNatural entries account.id
  avatarUrl : Optional "avatar_url" IsText entries account.avatarUrl
  htmlUrl : Optional "html_url" IsText entries account.htmlUrl
  kind : Optional "type" IsText entries account.kind

def memberNames : List String := ["login", "id", "avatar_url", "html_url", "type"]

theorem distinct_names : (names fields).Nodup := by decide

theorem lawful_fields : LawfulFields fields 0 := by
  have text := text_follows.lawful (Nat.zero_le _)
  have number := unsigned_follows.lawful (Nat.zero_le _)
  have optionalText := (Codec.optional_follows text_follows).lawful (Nat.zero_le _)
  exact .cons text (.cons number (.cons optionalText (.cons optionalText
    (.cons optionalText .nil))))

theorem told_iff (entries : List (String × Form)) (account : Account) :
    Row.Told Field.Means entries account.toRow ↔ Told entries account := by
  have shallow := Nat.zero_le nestingAllowance
  constructor
  · intro given
    rcases given with ⟨login, id, avatarUrl, htmlUrl, kind, _⟩
    exact
      { login := (stores_required text_follows shallow).mp login
        id := (stores_required unsigned_follows shallow).mp id
        avatarUrl := (stores_optional text_follows shallow).mp avatarUrl
        htmlUrl := (stores_optional text_follows shallow).mp htmlUrl
        kind := (stores_optional text_follows shallow).mp kind }
  · intro told
    exact ⟨(stores_required text_follows shallow).mpr told.login,
      (stores_required unsigned_follows shallow).mpr told.id,
      (stores_optional text_follows shallow).mpr told.avatarUrl,
      (stores_optional text_follows shallow).mpr told.htmlUrl,
      (stores_optional text_follows shallow).mpr told.kind, trivial⟩

end Account

/-- An account is an object, or an array of its members in order. -/
def IsAccount (form : Form) (account : Account) : Prop :=
  Exists fun entries => Lists Account.memberNames form entries ∧ account.Told entries

theorem Account.codec_follows : Account.codec.Follows 1 IsAccount :=
  Codec.record_through_follows lawful_fields distinct_names (fun _ => rfl) (fun _ => rfl) told_iff

namespace Organization

/-- What the members of an organization mean. -/
structure Told (entries : List (String × Form)) (organization : Organization) : Prop where
  login : Required "login" IsText entries organization.login
  id : Required "id" IsNatural entries organization.id
  name : Optional "name" IsText entries organization.name
  description : Optional "description" IsText entries organization.description
  url : Optional "url" IsText entries organization.url
  htmlUrl : Optional "html_url" IsText entries organization.htmlUrl
  avatarUrl : Optional "avatar_url" IsText entries organization.avatarUrl

def memberNames : List String :=
  ["login", "id", "name", "description", "url", "html_url", "avatar_url"]

theorem distinct_names : (names fields).Nodup := by decide

theorem lawful_fields : LawfulFields fields 0 := by
  have text := text_follows.lawful (Nat.zero_le _)
  have number := unsigned_follows.lawful (Nat.zero_le _)
  have optionalText := (Codec.optional_follows text_follows).lawful (Nat.zero_le _)
  exact .cons text (.cons number (.cons optionalText (.cons optionalText (.cons optionalText
    (.cons optionalText (.cons optionalText .nil))))))

theorem told_iff (entries : List (String × Form)) (organization : Organization) :
    Row.Told Field.Means entries organization.toRow ↔ Told entries organization := by
  have shallow := Nat.zero_le nestingAllowance
  constructor
  · intro given
    rcases given with ⟨login, id, name, description, url, htmlUrl, avatarUrl, _⟩
    exact
      { login := (stores_required text_follows shallow).mp login
        id := (stores_required unsigned_follows shallow).mp id
        name := (stores_optional text_follows shallow).mp name
        description := (stores_optional text_follows shallow).mp description
        url := (stores_optional text_follows shallow).mp url
        htmlUrl := (stores_optional text_follows shallow).mp htmlUrl
        avatarUrl := (stores_optional text_follows shallow).mp avatarUrl }
  · intro told
    exact ⟨(stores_required text_follows shallow).mpr told.login,
      (stores_required unsigned_follows shallow).mpr told.id,
      (stores_optional text_follows shallow).mpr told.name,
      (stores_optional text_follows shallow).mpr told.description,
      (stores_optional text_follows shallow).mpr told.url,
      (stores_optional text_follows shallow).mpr told.htmlUrl,
      (stores_optional text_follows shallow).mpr told.avatarUrl, trivial⟩

end Organization

/-- An organization is an object, or an array of its members in order. -/
def IsOrganization (form : Form) (organization : Organization) : Prop :=
  Exists fun entries =>
    Lists Organization.memberNames form entries ∧ organization.Told entries

theorem Organization.codec_follows : Organization.codec.Follows 1 IsOrganization :=
  Codec.record_through_follows lawful_fields distinct_names (fun _ => rfl) (fun _ => rfl) told_iff

end Model
end RepoInspector
