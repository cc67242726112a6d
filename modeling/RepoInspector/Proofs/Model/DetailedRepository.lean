import RepoInspector.Model.Payload
import RepoInspector.Proofs.Model.Repository

namespace RepoInspector
namespace Model

open Json
open Record

/-!
# What detailed repositories are

A detailed repository is one object with the members of all three layers.  The
details are read as they are met, and everything else is handed on as values.
-/

namespace DetailedRepository

/-- What the members of a detailed repository mean. -/
structure Told (entries : List (String × Form)) (detailed : DetailedRepository) : Prop where
  base : detailed.base.Told entries
  squashSetting : Optional "allow_squash_merge" IsBoolean entries detailed.squashSetting
  mergeSetting : Optional "allow_merge_commit" IsBoolean entries detailed.mergeSetting
  rebaseSetting : Optional "allow_rebase_merge" IsBoolean entries detailed.rebaseSetting
  organization : Optional "organization" IsOrganization entries detailed.organization
  parent : Optional "parent" IsRepository entries detailed.parent
  source : Optional "source" IsRepository entries detailed.source
  networkCount : Optional "network_count" IsNatural entries detailed.networkCount
  subscribersCount : Optional "subscribers_count" IsNatural entries detailed.subscribersCount

/-- The members besides those of the repository and its permissions. -/
def ownNames : List String :=
  ["allow_squash_merge", "allow_merge_commit", "allow_rebase_merge", "organization", "parent",
    "source", "network_count", "subscribers_count"]

theorem lawful_fields : LawfulFields fields 2 := by
  have shallow : 2 ≤ nestingAllowance := by decide
  have setting := (Codec.optional_follows boolean_follows).lawful shallow
  have organization := (Codec.optional_follows (Organization.codec_follows.deeper
    (by decide : 1 ≤ 2))).lawful shallow
  have repository := (Codec.optional_follows Repository.codec_follows).lawful shallow
  have count := (Codec.optional_follows unsigned_follows).lawful shallow
  exact .cons setting (.cons setting (.cons setting (.cons organization (.cons repository
    (.cons repository (.cons count (.cons count .nil)))))))

theorem distinct_names : (names fields).Nodup := by decide

/-- The details have names of their own, so the inner layers lose nothing to them. -/
theorem rowsTold_others (entries : List (String × Form))
    (rows : Row PermittedRepository.fields × Row Repository.fields) :
    PermittedRepository.RowsTold (others fields entries) rows ↔
      PermittedRepository.RowsTold entries rows := by
  have apart : ∀ name ∈ names PermittedRepository.fields, name ∉ names fields := by decide
  have innerApart : ∀ name ∈ names Repository.fields,
      name ∉ names PermittedRepository.fields ∧ name ∉ names fields := by decide
  refine and_congr (Row.told_of_named ?_ rows.1) (Row.told_of_named ?_ rows.2)
  · exact fun name listed => named_others (apart name listed) entries
  · intro name listed
    have unnamed := innerApart name listed
    rw [named_others unnamed.1, named_others unnamed.1, named_others unnamed.2]

theorem told_iff (entries : List (String × Form)) (detailed : DetailedRepository) :
    ExtendedTold fields PermittedRepository.RowsTold entries detailed.toRow ↔
      Told entries detailed := by
  have shallow : 2 ≤ nestingAllowance := by decide
  have within : 1 ≤ nestingAllowance := by decide
  have inner : PermittedRepository.RowsTold (others fields entries) detailed.base.toRow ↔
      detailed.base.Told entries :=
    (rowsTold_others entries _).trans (PermittedRepository.told_iff entries detailed.base)
  constructor
  · intro given
    rcases given with
      ⟨⟨squash, merge, rebase, organization, parent, source, network, subscribers, _⟩, base⟩
    exact
      { base := inner.mp base
        squashSetting := (stores_optional boolean_follows shallow).mp squash
        mergeSetting := (stores_optional boolean_follows shallow).mp merge
        rebaseSetting := (stores_optional boolean_follows shallow).mp rebase
        organization := (stores_optional Organization.codec_follows within).mp organization
        parent := (stores_optional Repository.codec_follows shallow).mp parent
        source := (stores_optional Repository.codec_follows shallow).mp source
        networkCount := (stores_optional unsigned_follows shallow).mp network
        subscribersCount := (stores_optional unsigned_follows shallow).mp subscribers }
  · intro told
    exact ⟨⟨(stores_optional boolean_follows shallow).mpr told.squashSetting,
      (stores_optional boolean_follows shallow).mpr told.mergeSetting,
      (stores_optional boolean_follows shallow).mpr told.rebaseSetting,
      (stores_optional Organization.codec_follows within).mpr told.organization,
      (stores_optional Repository.codec_follows shallow).mpr told.parent,
      (stores_optional Repository.codec_follows shallow).mpr told.source,
      (stores_optional unsigned_follows shallow).mpr told.networkCount,
      (stores_optional unsigned_follows shallow).mpr told.subscribersCount, trivial⟩,
      inner.mpr told.base⟩

end DetailedRepository

/-- A detailed repository is an object.  All its members but its own details
are decoded, within the allowance that is left inside the object. -/
def IsDetailedRepository (form : Form) (detailed : DetailedRepository) : Prop :=
  Exists fun members => Exists fun entries => form = .object members ∧
    Form.Keyed members entries ∧
    (∀ entry ∈ entries, entry.1 ∉ DetailedRepository.ownNames ->
      entry.2.Decodes (nestingAllowance - 1)) ∧
    detailed.Told entries

theorem DetailedRepository.codec_follows :
    DetailedRepository.codec.Follows nestingAllowance IsDetailedRepository :=
  Codec.extending_through_follows lawful_fields (by decide) distinct_names
    (innerFollows_extended PermittedRepository.lawful_fields PermittedRepository.distinct_names
      .buffered (innerFollows_record Repository.lawful_fields Repository.distinct_names .buffered))
    _ (fun _ => rfl) (fun _ => rfl) told_iff

/-- A payload that is read byte by byte is read as it is with all its bytes in hand. -/
theorem DetailedRepository.ofStream_eq (supply : Supply) :
    ofStream supply = asPayload (reported .stream supply (codec.ofDocument supply)) := by
  rw [ofStream, Codec.decode_stream]

end Model
end RepoInspector
