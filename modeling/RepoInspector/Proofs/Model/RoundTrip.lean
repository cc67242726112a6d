import RepoInspector.Proofs.Model.MergeMethod
import RepoInspector.Proofs.Model.Payload
import RepoInspector.Proofs.Record.Writing

namespace RepoInspector
namespace Model

open Json
open Record

/-!
# Writing models and reading them again

No data of any model is lost in a document.  The members that the layers of a
repository are written as stand in one object, and are told apart again because
no two layers use the same name.
-/

section Members

variable {name : String} {depth : Nat}

theorem text_member : (Field.optional name .text).Writes depth :=
  optional_writes Codec.text_writes fun _ => nofun

theorem setting_member : (Field.optional name .boolean).Writes depth :=
  optional_writes Codec.boolean_writes fun _ => nofun

theorem count_member : (Field.optional name .unsigned).Writes depth :=
  optional_writes Codec.unsigned_writes fun _ => nofun

theorem moment_member : (Field.optional name .instant).Writes depth :=
  optional_writes Codec.instant_writes fun _ => nofun

end Members

theorem Account.codec_writes : Account.codec.Writes 1 := by
  have writing : WritingFields fields 0 :=
    .cons (required_writes Codec.text_writes) (.cons (required_writes Codec.unsigned_writes)
      (.cons text_member (.cons text_member (.cons text_member .nil))))
  exact Codec.through_writes (Codec.record_writes writing distinct_names) fun _ => rfl

theorem Organization.codec_writes : Organization.codec.Writes 1 := by
  have writing : WritingFields fields 0 :=
    .cons (required_writes Codec.text_writes) (.cons (required_writes Codec.unsigned_writes)
      (.cons text_member (.cons text_member (.cons text_member (.cons text_member
        (.cons text_member .nil))))))
  exact Codec.through_writes (Codec.record_writes writing distinct_names) fun _ => rfl

theorem Repository.writing_fields : WritingFields Repository.fields 1 :=
  have boolean {name : String} : (Field.defaulted name .boolean false).Writes 1 :=
    defaulted_writes Codec.boolean_writes
  have count {name : String} : (Field.defaulted name .unsigned 0).Writes 1 :=
    defaulted_writes Codec.unsigned_writes
  .cons (required_writes Codec.unsigned_writes) (.cons (required_writes Codec.text_writes)
    (.cons (required_writes Codec.text_writes) (.cons text_member (.cons boolean (.cons boolean
    (.cons boolean (.cons (required_writes Account.codec_writes) (.cons text_member
    (.cons text_member (.cons text_member (.cons text_member (.cons text_member (.cons count
    (.cons count (.cons moment_member (.cons moment_member
    (.cons moment_member .nil)))))))))))))))))

theorem Repository.codec_writes : Repository.codec.Writes 2 :=
  Codec.through_writes (Codec.record_writes writing_fields distinct_names) fun _ => rfl

theorem Permissions.codec_writes : Permissions.codec.Writes 1 := by
  have boolean {name : String} : (Field.defaulted name .boolean false).Writes 0 :=
    defaulted_writes Codec.boolean_writes
  have writing : WritingFields fields 0 := .cons boolean (.cons boolean (.cons boolean .nil))
  exact Codec.through_writes (Codec.record_writes writing distinct_names) fun _ => rfl

theorem PermittedRepository.writing_fields : WritingFields PermittedRepository.fields 1 :=
  .cons (optional_writes Permissions.codec_writes fun _ => nofun) .nil

/-- No name of a repository is a name of the permissions. -/
theorem PermittedRepository.names_apart :
    ∀ name ∈ names Repository.fields, name ∉ names PermittedRepository.fields := by decide

theorem PermittedRepository.codec_writes : PermittedRepository.codec.Writes 2 :=
  Codec.through_writes (Codec.extending_writes writing_fields distinct_names
    (innerWrites_record Repository.writing_fields Repository.distinct_names .buffered)
    names_apart) fun _ => rfl

theorem DetailedRepository.codec_writes : DetailedRepository.codec.Writes 3 := by
  have writing : WritingFields fields 2 :=
    have organization := Organization.codec_writes.deeper (by decide : 1 ≤ 2)
    .cons setting_member (.cons setting_member (.cons setting_member
      (.cons (optional_writes organization fun _ => nofun)
      (.cons (optional_writes Repository.codec_writes fun _ => nofun)
      (.cons (optional_writes Repository.codec_writes fun _ => nofun)
      (.cons count_member (.cons count_member .nil)))))))
  have base := innerWrites_extended PermittedRepository.writing_fields
    PermittedRepository.distinct_names .buffered
    (innerWrites_record Repository.writing_fields Repository.distinct_names .buffered)
    PermittedRepository.names_apart
  have apart : ∀ name ∈ names Repository.fields ++ names PermittedRepository.fields,
      name ∉ names fields := by decide
  apply Codec.through_writes
  case inverse => exact fun _ => rfl
  exact Codec.extending_writes writing distinct_names (base.deeper (by decide : 1 ≤ 2)) apart

/-- A method is written as its name. -/
theorem MergeMethod.decode_toText (way : Way) (style : Style) (method : MergeMethod) :
    decode way (supplyOfText (method.toValue.toText style)) = .ok method := by
  have tidy : Value.Tidy nestingAllowance method.toValue := .text
  rcases tidy.written with ⟨form, denotes, distinct, written⟩
  have meant : IsMergeMethod form method := by
    cases denotes with
    | text denoted => exact .name denoted
  exact readsForms.of_distinct (written style) ⟨_, denotes⟩ distinct meant way

/-- Whatever a model holds is read again from the document that it is written
as, in either style and along every way. -/
theorem models_round_trip (way : Way) (style : Style) :
    (forall account : Account,
      Account.codec.decode way (supplyOfText (Account.codec.encode style account)) =
        .ok account) ∧
    (forall organization : Organization,
      Organization.codec.decode way (supplyOfText (Organization.codec.encode style organization)) =
        .ok organization) ∧
    (forall repository : Repository,
      Repository.codec.decode way (supplyOfText (Repository.codec.encode style repository)) =
        .ok repository) ∧
    (forall permissions : Permissions,
      Permissions.codec.decode way (supplyOfText (Permissions.codec.encode style permissions)) =
        .ok permissions) ∧
    (forall permitted : PermittedRepository,
      PermittedRepository.codec.decode way
        (supplyOfText (PermittedRepository.codec.encode style permitted)) = .ok permitted) ∧
    (forall detailed : DetailedRepository,
      DetailedRepository.codec.decode way
        (supplyOfText (DetailedRepository.codec.encode style detailed)) = .ok detailed ∧
      DetailedRepository.ofJson (DetailedRepository.codec.encode style detailed) = .ok detailed ∧
      DetailedRepository.ofStream
        (supplyOfText (DetailedRepository.codec.encode style detailed)) = .ok detailed) ∧
    (forall method : MergeMethod,
      MergeMethod.decode way (supplyOfText (method.toValue.toText style)) = .ok method) := by
  refine ⟨?account, ?organization, ?repository, ?permissions, ?permitted, ?detailed, ?method⟩
  case account =>
    exact Codec.decode_encode Account.codec_follows (by decide) Account.codec_writes (by decide)
      way style
  case organization =>
    exact Codec.decode_encode Organization.codec_follows (by decide) Organization.codec_writes
      (by decide) way style
  case repository =>
    exact Codec.decode_encode Repository.codec_follows (by decide) Repository.codec_writes
      (by decide) way style
  case permissions =>
    exact Codec.decode_encode Permissions.codec_follows (by decide) Permissions.codec_writes
      (by decide) way style
  case permitted =>
    exact Codec.decode_encode PermittedRepository.codec_follows (Nat.le_refl _)
      PermittedRepository.codec_writes (by decide) way style
  case detailed =>
    intro detailed
    have restored := fun way => Codec.decode_encode DetailedRepository.codec_follows
      (Nat.le_refl _) DetailedRepository.codec_writes (by decide) way style detailed
    exact ⟨restored way, asPayload_eq_ok_iff.mpr (restored .text),
      asPayload_eq_ok_iff.mpr (restored .stream)⟩
  case method => exact MergeMethod.decode_toText way style

end Model
end RepoInspector
