import RepoInspector.Proofs.Model.Nulls
import RepoInspector.Proofs.Model.RoundTrip
import RepoInspector.Proofs.Record.Outlines

namespace RepoInspector
namespace Model

open Json
open Record

/-!
# What models are written as

Every member of a model has its place in a document, and only optional members
leave theirs empty, just when there is no data for them.  The layers of a
repository follow each other in one object, without a name in common.  Neither
layout nor contents change anything in this.
-/

/-- A scalar that is there when there is data. -/
def scalarFor {α : Type} (data : Option α) : Option Outline := data.map fun _ => .scalar

def Account.sketch (account : Account) : List (String × Option Outline) :=
  [("login", some .scalar), ("id", some .scalar), ("avatar_url", scalarFor account.avatarUrl),
    ("html_url", scalarFor account.htmlUrl), ("type", scalarFor account.kind)]

def Organization.sketch (organization : Organization) : List (String × Option Outline) :=
  [("login", some .scalar), ("id", some .scalar), ("name", scalarFor organization.name),
    ("description", scalarFor organization.description), ("url", scalarFor organization.url),
    ("html_url", scalarFor organization.htmlUrl),
    ("avatar_url", scalarFor organization.avatarUrl)]

def Repository.sketch (repository : Repository) : List (String × Option Outline) :=
  [("id", some .scalar), ("name", some .scalar), ("full_name", some .scalar),
    ("description", scalarFor repository.description), ("private", some .scalar),
    ("fork", some .scalar), ("archived", some .scalar),
    ("owner", some (.object (present repository.owner.sketch))),
    ("html_url", scalarFor repository.htmlUrl), ("url", scalarFor repository.url),
    ("clone_url", scalarFor repository.cloneUrl), ("ssh_url", scalarFor repository.sshUrl),
    ("default_branch", scalarFor repository.defaultBranch), ("stargazers_count", some .scalar),
    ("forks_count", some .scalar), ("created_at", scalarFor repository.createdAt),
    ("updated_at", scalarFor repository.updatedAt), ("pushed_at", scalarFor repository.pushedAt)]

def Permissions.sketch : List (String × Option Outline) :=
  [("admin", some .scalar), ("push", some .scalar), ("pull", some .scalar)]

def PermittedRepository.sketch (permitted : PermittedRepository) :
    List (String × Option Outline) :=
  permitted.repository.sketch ++
    [("permissions", permitted.permissions.map fun _ => .object (present Permissions.sketch))]

/-- The places of the details alone. -/
def DetailedRepository.details (detailed : DetailedRepository) : List (String × Option Outline) :=
  [("allow_squash_merge", scalarFor detailed.squashSetting),
    ("allow_merge_commit", scalarFor detailed.mergeSetting),
    ("allow_rebase_merge", scalarFor detailed.rebaseSetting),
    ("organization", detailed.organization.map fun organization =>
      .object (present organization.sketch)),
    ("parent", detailed.parent.map fun parent => .object (present parent.sketch)),
    ("source", detailed.source.map fun source => .object (present source.sketch)),
    ("network_count", scalarFor detailed.networkCount),
    ("subscribers_count", scalarFor detailed.subscribersCount)]

def DetailedRepository.sketch (detailed : DetailedRepository) : List (String × Option Outline) :=
  detailed.base.sketch ++ detailed.details

section Layers

variable {name : String}

theorem text_place (data : Option String) :
    (Field.optional name .text).Sketched data (name, scalarFor data) :=
  optional_sketched Codec.text_sketches data

theorem setting_place (data : Option Bool) :
    (Field.optional name .boolean).Sketched data (name, scalarFor data) :=
  optional_sketched Codec.boolean_sketches data

theorem count_place (data : Option UInt64) :
    (Field.optional name .unsigned).Sketched data (name, scalarFor data) :=
  optional_sketched Codec.unsigned_sketches data

theorem moment_place (data : Option Time.Instant) :
    (Field.optional name .instant).Sketched data (name, scalarFor data) :=
  optional_sketched Codec.instant_sketches data

end Layers

theorem Account.sketched (account : Account) : Row.Sketched account.toRow account.sketch :=
  ⟨required_sketched Codec.text_sketches _, required_sketched Codec.unsigned_sketches _,
    text_place _, text_place _, text_place _, trivial⟩

theorem Account.codec_sketches :
    Account.codec.Sketches fun account => .object (present account.sketch) where
  outlined {_ _ account} denotes := by
    cases denotes with
    | object inner => exact .object (account.sketched.outlined inner)

theorem Organization.sketched (organization : Organization) :
    Row.Sketched organization.toRow organization.sketch :=
  ⟨required_sketched Codec.text_sketches _, required_sketched Codec.unsigned_sketches _,
    text_place _, text_place _, text_place _, text_place _, text_place _, trivial⟩

theorem Organization.codec_sketches :
    Organization.codec.Sketches fun organization => .object (present organization.sketch) where
  outlined {_ _ organization} denotes := by
    cases denotes with
    | object inner => exact .object (organization.sketched.outlined inner)

theorem Repository.sketched (repository : Repository) :
    Row.Sketched repository.toRow repository.sketch := by
  have text {name : String} (s : String) :
      (Field.required name .text).Sketched s (name, some .scalar) :=
    required_sketched Codec.text_sketches s
  have flag {name : String} (b : Bool) :
      (Field.defaulted name .boolean false).Sketched b (name, some .scalar) :=
    defaulted_sketched Codec.boolean_sketches b
  have total {name : String} (n : UInt64) :
      (Field.defaulted name .unsigned 0).Sketched n (name, some .scalar) :=
    defaulted_sketched Codec.unsigned_sketches n
  exact ⟨required_sketched Codec.unsigned_sketches _, text _, text _, text_place _, flag _, flag _,
    flag _, required_sketched Account.codec_sketches _, text_place _, text_place _, text_place _,
    text_place _, text_place _, total _, total _, moment_place _, moment_place _, moment_place _,
    trivial⟩

theorem Repository.codec_sketches :
    Repository.codec.Sketches fun repository => .object (present repository.sketch) where
  outlined {_ _ repository} denotes := by
    cases denotes with
    | object inner => exact .object (repository.sketched.outlined inner)

theorem Permissions.sketched (permissions : Permissions) :
    Row.Sketched permissions.toRow Permissions.sketch := by
  have flag {name : String} (b : Bool) :
      (Field.defaulted name .boolean false).Sketched b (name, some .scalar) :=
    defaulted_sketched Codec.boolean_sketches b
  exact ⟨flag _, flag _, flag _, trivial⟩

theorem Permissions.codec_sketches :
    Permissions.codec.Sketches fun _ => .object (present Permissions.sketch) where
  outlined {_ _ permissions} denotes := by
    cases denotes with
    | object inner => exact .object (permissions.sketched.outlined inner)

/-- The members of a repository come first, and then its permissions. -/
theorem PermittedRepository.outlined (permitted : PermittedRepository) {allowance : Nat}
    {forms : List (List Piece × Form)}
    (denoted : Form.DenoteMembers allowance forms
      (Row.members permitted.toRow.2 ++ Row.members permitted.toRow.1)) :
    Form.MembersOutlined forms (present permitted.sketch) := by
  have own : Row.Sketched permitted.toRow.1 [_] :=
    ⟨optional_sketched Permissions.codec_sketches permitted.permissions, trivial⟩
  rcases Form.denoteMembers_append denoted with ⟨before, after, rfl, inner, outer⟩
  rw [sketch, present, List.filterMap_append]
  exact (permitted.repository.sketched.outlined inner).append (own.outlined outer)

theorem PermittedRepository.codec_sketches :
    PermittedRepository.codec.Sketches fun permitted => .object (present permitted.sketch) where
  outlined {_ _ permitted} denotes := by
    cases denotes with
    | object inner => exact .object (permitted.outlined inner)

theorem DetailedRepository.codec_sketches :
    DetailedRepository.codec.Sketches fun detailed => .object (present detailed.sketch) where
  outlined {_ _ detailed} denotes := by
    cases denotes with
    | object inner =>
        have own : Row.Sketched detailed.toRow.1 detailed.details :=
          ⟨setting_place _, setting_place _, setting_place _,
            optional_sketched Organization.codec_sketches _,
            optional_sketched Repository.codec_sketches _,
            optional_sketched Repository.codec_sketches _, count_place _, count_place _, trivial⟩
        rcases Form.denoteMembers_append inner with ⟨before, after, rfl, base, details⟩
        apply Form.Outlined.object
        rw [sketch, present, List.filterMap_append]
        exact (detailed.base.outlined base).append (own.outlined details)

namespace Kind

/-- The places of the members, in the order in which they are written. -/
def sketch : (kind : Kind) -> kind.Data -> List (String × Option Outline)
  | .account => Account.sketch
  | .organization => Organization.sketch
  | .repository => Repository.sketch
  | .permissions => fun _ => Permissions.sketch
  | .permittedRepository => PermittedRepository.sketch
  | .detailedRepository => DetailedRepository.sketch

/-- The names of the members in the order in which they are written, the inner
layers first. -/
def writtenNames : Kind -> List String
  | .account => Account.memberNames
  | .organization => Organization.memberNames
  | .repository => Repository.memberNames
  | .permissions => Permissions.memberNames
  | .permittedRepository => Repository.memberNames ++ PermittedRepository.ownNames
  | .detailedRepository =>
      Repository.memberNames ++ PermittedRepository.ownNames ++ DetailedRepository.ownNames

theorem codec_sketches (kind : Kind) :
    kind.codec.Sketches fun a => .object (present (kind.sketch a)) := by
  cases kind with
  | account => exact Account.codec_sketches
  | organization => exact Organization.codec_sketches
  | repository => exact Repository.codec_sketches
  | permissions => exact Permissions.codec_sketches
  | permittedRepository => exact PermittedRepository.codec_sketches
  | detailedRepository => exact DetailedRepository.codec_sketches

theorem codec_tidy (kind : Kind) (a : kind.Data) : (kind.codec.write a).Tidy nestingAllowance := by
  cases kind with
  | account => exact (Account.codec_writes.tidy a).mono (by decide)
  | organization => exact (Organization.codec_writes.tidy a).mono (by decide)
  | repository => exact (Repository.codec_writes.tidy a).mono (by decide)
  | permissions => exact (Permissions.codec_writes.tidy a).mono (by decide)
  | permittedRepository => exact (PermittedRepository.codec_writes.tidy a).mono (by decide)
  | detailedRepository => exact (DetailedRepository.codec_writes.tidy a).mono (by decide)

theorem names_sketch (kind : Kind) (a : kind.Data) :
    (kind.sketch a).map Prod.fst = kind.writtenNames := by
  cases kind <;> rfl

/-- Only optional members leave their places empty. -/
theorem optional_of_empty (kind : Kind) (a : kind.Data) :
    ∀ place ∈ kind.sketch a, place.2 = none -> place.1 ∈ kind.optionalNames := by
  cases kind with
  | account => simp [sketch, Account.sketch, optionalNames]
  | organization => simp [sketch, Organization.sketch, optionalNames]
  | repository => simp [sketch, Repository.sketch, optionalNames]
  | permissions => simp [sketch, Permissions.sketch, optionalNames]
  | permittedRepository =>
      simp [sketch, PermittedRepository.sketch, Repository.sketch, optionalNames]
  | detailedRepository =>
      simp [sketch, DetailedRepository.sketch, DetailedRepository.details,
        PermittedRepository.sketch, Repository.sketch, optionalNames]

end Kind

/-- The document of a model is one object.  Its members stand in their order, each
under a name of its own, and all are there but the optional ones without data;
the same holds of the objects in it, and null is nowhere.  Both styles write
the same tokens, where the pretty one has line breaks and spaces between them
and the compact one has nothing. -/
theorem written_shape (kind : Kind) (a : kind.Data) :
    (Exists fun form : Form => Exists fun tokens : List (List Char) =>
      form.Outlined (.object (present (kind.sketch a))) ∧ form.Distinct ∧
      (∀ lexeme ∈ form.lexemes, lexeme ≠ .null) ∧
      (forall style, form.Written (kind.codec.encode style a).toUTF8.toList) ∧
      List.Forall₂ Lexeme.SpelledBy form.lexemes tokens ∧
      (kind.codec.encode .compact a).toList = tokens.flatten ∧
      Interspersed (fun c => c = '\n' ∨ c = ' ') tokens (kind.codec.encode .pretty a).toList) ∧
    (kind.sketch a).map Prod.fst = kind.writtenNames ∧
    (∀ place ∈ kind.sketch a, place.2 = none -> place.1 ∈ kind.optionalNames) := by
  refine ⟨?_, kind.names_sketch a, kind.optional_of_empty a⟩
  let value := kind.codec.write a
  rcases Value.exists_spells value (kind.codec_tidy a) with ⟨form, spells⟩
  have outlined := kind.codec_sketches.outlined spells.denotes
  have compact := Value.write_interspersed .compact 0 value
  have pretty := Value.write_interspersed .pretty 0 value
  refine ⟨form, value.tokens, outlined, spells.distinct, outlined.ne_null, spells.written,
    spells.spelled, ?_, ?_⟩
  · rw [Codec.encode, Value.toText, String.toList_ofList]
    exact compact.eq_flatten fun _ => id
  · rw [Codec.encode, Value.toText, String.toList_ofList]
    exact pretty

end Model
end RepoInspector
