import RepoInspector.Proofs.Model.Arrays
import RepoInspector.Proofs.Record.Nulls

namespace RepoInspector
namespace Model

open Json
open Record

/-!
# Null and missing members

A member that is optional can be null as well as missing, and that makes no
difference to any model on any way.  Every other member may not be null, not
even where it could be missing and stand for a default.
-/

namespace Kind

/-- The members that may be null. -/
def optionalNames : Kind -> List String
  | .account => ["avatar_url", "html_url", "type"]
  | .organization => ["name", "description", "url", "html_url", "avatar_url"]
  | .repository =>
      ["description", "html_url", "url", "clone_url", "ssh_url", "default_branch", "created_at",
        "updated_at", "pushed_at"]
  | .permissions => []
  | .permittedRepository =>
      ["description", "html_url", "url", "clone_url", "ssh_url", "default_branch", "created_at",
        "updated_at", "pushed_at", "permissions"]
  | .detailedRepository =>
      ["description", "html_url", "url", "clone_url", "ssh_url", "default_branch", "created_at",
        "updated_at", "pushed_at", "permissions", "allow_squash_merge", "allow_merge_commit",
        "allow_rebase_merge", "organization", "parent", "source", "network_count",
        "subscribers_count"]

theorem told_spares (kind : Kind) : Spares kind.fields kind.Told := by
  have inner := Row.told_spares Repository.fields
  cases kind with
  | account => exact (Row.told_spares _).congr Account.told_iff
  | organization => exact (Row.told_spares _).congr Organization.told_iff
  | repository => exact inner.congr Repository.told_iff
  | permissions => exact (Row.told_spares _).congr Permissions.told_iff
  | permittedRepository => exact inner.extended.congr PermittedRepository.told_iff
  | detailedRepository => exact inner.extended.extended.congr DetailedRepository.told_iff

end Kind

section Scalars

variable {name : String}

theorem text_takesNull : (Field.required name .text).TakesNull false := by
  apply required_takesNull text_follows (Nat.zero_le _)
  rintro s ⟨pieces, impossible, _⟩
  cases impossible

theorem count_takesNull : (Field.required name .unsigned).TakesNull false := by
  apply required_takesNull unsigned_follows (Nat.zero_le _)
  rintro n ⟨numeral, impossible, _⟩
  cases impossible

theorem flag_takesNull : (Field.defaulted name .boolean false).TakesNull false :=
  defaulted_takesNull boolean_follows (Nat.zero_le _) fun _ => nofun

theorem total_takesNull : (Field.defaulted name .unsigned 0).TakesNull false := by
  apply defaulted_takesNull unsigned_follows (Nat.zero_le _)
  rintro n ⟨numeral, impossible, _⟩
  cases impossible

theorem owner_takesNull : (Field.required name Account.codec).TakesNull false := by
  apply required_takesNull Account.codec_follows (by decide)
  rintro account ⟨entries, impossible, _⟩
  cases impossible

theorem optionalText_takesNull : (Field.optional name .text).TakesNull true :=
  optional_takesNull text_follows (Nat.zero_le _)

theorem optionalMoment_takesNull : (Field.optional name .instant).TakesNull true :=
  optional_takesNull instant_follows (Nat.zero_le _)

end Scalars

theorem Account.nullTable : NullTable Kind.account.optionalNames fields :=
  .cons text_takesNull (.cons count_takesNull (.cons optionalText_takesNull
    (.cons optionalText_takesNull (.cons optionalText_takesNull .nil))))

theorem Organization.nullTable : NullTable Kind.organization.optionalNames fields :=
  .cons text_takesNull (.cons count_takesNull (.cons optionalText_takesNull
    (.cons optionalText_takesNull (.cons optionalText_takesNull (.cons optionalText_takesNull
    (.cons optionalText_takesNull .nil))))))

theorem Repository.nullTable : NullTable Kind.repository.optionalNames fields :=
  .cons count_takesNull (.cons text_takesNull (.cons text_takesNull
    (.cons optionalText_takesNull (.cons flag_takesNull (.cons flag_takesNull
    (.cons flag_takesNull (.cons owner_takesNull (.cons optionalText_takesNull
    (.cons optionalText_takesNull (.cons optionalText_takesNull (.cons optionalText_takesNull
    (.cons optionalText_takesNull (.cons total_takesNull (.cons total_takesNull
    (.cons optionalMoment_takesNull (.cons optionalMoment_takesNull
    (.cons optionalMoment_takesNull .nil)))))))))))))))))

theorem Permissions.nullTable : NullTable Kind.permissions.optionalNames fields :=
  .cons flag_takesNull (.cons flag_takesNull (.cons flag_takesNull .nil))

theorem PermittedRepository.nullTable :
    NullTable Kind.permittedRepository.optionalNames allFields :=
  .append (.cons (optional_takesNull Permissions.codec_follows (by decide)) .nil)
    (Repository.nullTable.congr (by decide))

theorem DetailedRepository.nullTable :
    NullTable Kind.detailedRepository.optionalNames allFields := by
  have setting {name : String} : (Field.optional name .boolean).TakesNull true :=
    optional_takesNull boolean_follows (Nat.zero_le _)
  have count {name : String} : (Field.optional name .unsigned).TakesNull true :=
    optional_takesNull unsigned_follows (Nat.zero_le _)
  have organization : (Field.optional "organization" Organization.codec).TakesNull true :=
    optional_takesNull Organization.codec_follows (by decide)
  have repository {name : String} : (Field.optional name Repository.codec).TakesNull true :=
    optional_takesNull Repository.codec_follows (by decide)
  have details : NullTable Kind.detailedRepository.optionalNames fields :=
    .cons setting (.cons setting (.cons setting (.cons organization (.cons repository
      (.cons repository (.cons count (.cons count .nil)))))))
  exact details.append (PermittedRepository.nullTable.congr (by decide))

namespace Kind

theorem nullTable (kind : Kind) : NullTable kind.optionalNames kind.fields := by
  cases kind with
  | account => exact Account.nullTable
  | organization => exact Organization.nullTable
  | repository => exact Repository.nullTable
  | permissions => exact Permissions.nullTable
  | permittedRepository => exact PermittedRepository.nullTable
  | detailedRepository => exact DetailedRepository.nullTable

end Kind

/-- No member has the name. -/
abbrev Lacks (name : String) (members : List (List Piece × Form)) : Prop :=
  some name ∉ members.map fun member => Piece.denoted? member.1

section Objects

variable {kind : Kind} {before after : List (List Piece × Form)} {pieces : List Piece}
  {name : String}

theorem sameDecoding_null (denoted : Piece.denoted? pieces = some name) :
    SameDecoding (.object (before ++ (pieces, .null) :: after)) (.object (before ++ after)) := by
  intro allowance
  cases allowance with
  | zero => exact iff_of_false Form.not_decodes_object Form.not_decodes_object
  | succ allowance =>
      rw [Form.decodes_around_iff]
      exact and_iff_left ⟨⟨name, denoted⟩, _, .null⟩

/-- A null under an optional name that is not there says what its lack does. -/
theorem alike_null (denoted : Piece.denoted? pieces = some name)
    (absent : Lacks name (before ++ after))
    (optional : name ∈ kind.optionalNames) :
    Alike kind.Means (.object (before ++ (pieces, .null) :: after))
      (.object (before ++ after)) where
  same a := by
    rw [Kind.means_object, Kind.means_object]
    refine (Form.exists_keyed_inserted denoted fun left right keyedLeft keyedRight => ?_).symm
    have keyed := Form.keyed_append_iff.mpr ⟨left, right, rfl, keyedLeft, keyedRight⟩
    have fresh : name ∉ (left ++ right).map Prod.fst := by
      intro listed
      rw [Lacks, keyed.names] at absent
      exact absent (List.mem_map_of_mem listed)
    have vacant : ∀ field ∈ kind.fields, field.name = name ->
        forall stored, field.Means .null stored ↔ field.absent = some stored := by
      rintro field listed rfl stored
      rw [kind.nullTable field listed stored, decide_eq_true optional]
      exact and_iff_right rfl
    have handed : kind.Handed (left ++ (name, .null) :: right) ↔ kind.Handed (left ++ right) := by
      rw [Kind.handed_around_iff]
      exact and_iff_right fun _ => ⟨_, .null⟩
    rw [handed, kind.told_spares.same fresh vacant]
  decodes := sameDecoding_null denoted
  null_iff := ⟨nofun, nofun⟩

/-- A null under any other name that is asked for spoils the object. -/
theorem barred_null (denoted : Piece.denoted? pieces = some name) (known : name ∈ kind.memberNames)
    (firm : name ∉ kind.optionalNames) :
    Barred kind.Means (.object (before ++ (pieces, .null) :: after)) where
  solid := nofun
  meaningless a given := by
    rcases Kind.means_object.mp given with ⟨entries, keyed, _, told⟩
    rcases Form.keyed_around_iff.mp keyed with ⟨left, found, right, rfl, _, again, _⟩
    cases denoted.symm.trans again
    rw [← kind.names_fields] at known
    rcases kind.told_heeds.means told (List.mem_append_right _ List.mem_cons_self) known with
      ⟨field, isField, rfl, stored, meant⟩
    have nullable := ((kind.nullTable field isField stored).mp meant).1
    exact firm (of_decide_eq_true nullable)

/-- On every way a null under a new name is seen beside what is seen without it. -/
theorem seen_null (way : Way) (denoted : Piece.denoted? pieces = some name)
    (absent : Lacks name (before ++ after)) :
    Exists fun left => Exists fun right =>
      way.seen (.object (before ++ after)) = .object (left ++ right) ∧
      way.seen (.object (before ++ (pieces, .null) :: after)) =
        .object (left ++ (pieces, .null) :: right) ∧
      Lacks name (left ++ right) := by
  cases way with
  | text | stream => exact ⟨before, after, rfl, rfl, absent⟩
  | settled =>
      rcases Form.exists_settled_inserted denoted absent with ⟨left, right, fresh, without, within⟩
      exact ⟨left, right, without, within .null, fresh⟩

end Objects

/-- In every object that is read as a model, wherever it stands in a document, a
member that is not there can be null just when it is optional.  Then nothing
that is read changes, and otherwise nothing is read any more, whichever default
a missing member stands for. -/
theorem null_read_as_missing {way : Way} {outer inner : Kind} {around : Form -> Form}
    (site : Site way outer inner around) {before after : List (List Piece × Form)}
    {pieces : List Piece} {name text other : String} (denoted : Piece.denoted? pieces = some name)
    (absent : Lacks name (before ++ after))
    (written : (around (.object (before ++ after))).Written text.toUTF8.toList)
    (otherWritten : (around (.object (before ++ (pieces, .null) :: after))).Written
      other.toUTF8.toList) :
    (name ∈ inner.optionalNames -> forall a,
      outer.codec.decode way (supplyOfText other) = .ok a ↔
        outer.codec.decode way (supplyOfText text) = .ok a) ∧
    (name ∈ inner.memberNames -> name ∉ inner.optionalNames -> forall a,
      outer.codec.decode way (supplyOfText other) ≠ .ok a) := by
  rcases seen_null way denoted absent with ⟨left, right, without, within, stillAbsent⟩
  constructor
  · intro optional
    apply site.decode_congr (sameDecoding_null denoted) ?_ otherWritten written
    rw [without, within]
    exact alike_null denoted stillAbsent optional
  · intro known firm
    apply site.not_decoded ?_ otherWritten
    rw [within]
    exact barred_null denoted known firm

/-- The members of a repository that has to be asked for nothing more. -/
def ownedMembers : List (List Piece × Form) :=
  [memberOf "id" (.number (numeralOf 1)), memberOf "name" (.text (Piece.ofText "a")),
    memberOf "full_name" (.text (Piece.ofText "o/a")),
    memberOf "owner" (.object DetailedRepository.loginMembers)]

/-- The type of an owner may be null, and that a repository is private may not. -/
theorem null_read_as_missing_owner :
    Repository.codec.decode .settled
      (supplyOfText (ownedText "\x7b\"login\":\"o\",\"id\":2,\"type\":null\x7d")) =
        .ok DetailedRepository.squashRepository.repository ∧
    forall repository, Repository.codec.decode .stream
      (supplyOfText (ownedText "\x7b\"login\":\"o\",\"id\":2\x7d,\"private\":null")) ≠
        .ok repository := by
  have ownerAbsent : Lacks "type" (DetailedRepository.loginMembers ++ []) := by decide +kernel
  have absent : Lacks "private" (ownedMembers ++ []) := by decide +kernel
  have written : (Form.object (ownedMembers ++ [])).Written
      (ownedText "\x7b\"login\":\"o\",\"id\":2\x7d").toUTF8.toList := by decide +kernel
  have ownerWritten : (ownedForm (.object (DetailedRepository.loginMembers ++
      (Piece.ofText "type", .null) :: []))).Written
      (ownedText "\x7b\"login\":\"o\",\"id\":2,\"type\":null\x7d").toUTF8.toList := by
    decide +kernel
  have otherWritten : (Form.object (ownedMembers ++ (Piece.ofText "private", .null) :: [])).Written
      (ownedText "\x7b\"login\":\"o\",\"id\":2\x7d,\"private\":null").toUTF8.toList := by
    decide +kernel
  constructor
  · have same := (null_read_as_missing (owner_site .settled) (Piece.denoted?_ofText "type")
      ownerAbsent written ownerWritten).1 (by decide)
    exact (same _).mpr (by decide +kernel)
  · exact (null_read_as_missing (@Site.here .stream .repository) (Piece.denoted?_ofText "private")
      absent written otherWritten).2 (by decide) (by decide)

end Model
end RepoInspector
