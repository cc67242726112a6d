import RepoInspector.Proofs.Model.Changes
import RepoInspector.Proofs.Record.Alike

namespace RepoInspector
namespace Model

open Json
open Record

/-!
# Kinds of models

The models that are read from objects, side by side.  What distinguishes them
is said in tables: their members, which of these hold another model, whether
an array of values can stand for the object, and which members are handed on
to an inner layer and have to be decoded for it.  Whatever holds of all models
can then be stated once.
-/

inductive Kind
  | account
  | organization
  | repository
  | permissions
  | permittedRepository
  | detailedRepository
deriving DecidableEq, Repr

namespace Kind

abbrev Data : Kind -> Type
  | .account => Account
  | .organization => Organization
  | .repository => Repository
  | .permissions => Permissions
  | .permittedRepository => PermittedRepository
  | .detailedRepository => DetailedRepository

def codec : (kind : Kind) -> Codec kind.Data
  | .account => Account.codec
  | .organization => Organization.codec
  | .repository => Repository.codec
  | .permissions => Permissions.codec
  | .permittedRepository => PermittedRepository.codec
  | .detailedRepository => DetailedRepository.codec

/-- The fields of all layers. -/
def fields : Kind -> List Field
  | .account => Account.fields
  | .organization => Organization.fields
  | .repository => Repository.fields
  | .permissions => Permissions.fields
  | .permittedRepository => PermittedRepository.allFields
  | .detailedRepository => DetailedRepository.allFields

/-- The names of the members, in the order of the fields. -/
def memberNames : Kind -> List String
  | .account => Account.memberNames
  | .organization => Organization.memberNames
  | .repository => Repository.memberNames
  | .permissions => Permissions.memberNames
  | .permittedRepository => PermittedRepository.ownNames ++ Repository.memberNames
  | .detailedRepository =>
      DetailedRepository.ownNames ++ (PermittedRepository.ownNames ++ Repository.memberNames)

/-- The members that hold a model themselves. -/
def parts : Kind -> List (String × Kind)
  | .account | .organization | .permissions => []
  | .repository => [("owner", .account)]
  | .permittedRepository => [("owner", .account), ("permissions", .permissions)]
  | .detailedRepository =>
      [("owner", .account), ("permissions", .permissions), ("organization", .organization),
        ("parent", .repository), ("source", .repository)]

/-- Whether an array of the members' values can stand for the object. -/
def isListed : Kind -> Bool
  | .account | .organization | .repository | .permissions => true
  | .permittedRepository | .detailedRepository => false

/-- A member is handed on to an inner layer as a value. -/
def HandsOn : Kind -> String -> Prop
  | .account, _ | .organization, _ | .repository, _ | .permissions, _ => False
  | .permittedRepository, name => name ∉ PermittedRepository.ownNames
  | .detailedRepository, name => name ∉ DetailedRepository.ownNames

/-- What the entries of an object tell. -/
def Told : (kind : Kind) -> List (String × Form) -> kind.Data -> Prop
  | .account => Account.Told
  | .organization => Organization.Told
  | .repository => Repository.Told
  | .permissions => Permissions.Told
  | .permittedRepository => PermittedRepository.Told
  | .detailedRepository => DetailedRepository.Told

def Means : (kind : Kind) -> Form -> kind.Data -> Prop
  | .account => IsAccount
  | .organization => IsOrganization
  | .repository => IsRepository
  | .permissions => IsPermissions
  | .permittedRepository => IsPermittedRepository
  | .detailedRepository => IsDetailedRepository

theorem names_fields (kind : Kind) : names kind.fields = kind.memberNames := by
  cases kind <;> rfl

theorem distinct_memberNames (kind : Kind) : kind.memberNames.Nodup := by
  cases kind <;> decide

/-- Whatever the kind, its codec reads what forms mean. -/
theorem codec_follows (kind : Kind) : kind.codec.Follows nestingAllowance kind.Means := by
  cases kind with
  | account => exact Account.codec_follows.deeper (by decide)
  | organization => exact Organization.codec_follows.deeper (by decide)
  | repository => exact Repository.codec_follows.deeper (by decide)
  | permissions => exact Permissions.codec_follows.deeper (by decide)
  | permittedRepository => exact PermittedRepository.codec_follows
  | detailedRepository => exact DetailedRepository.codec_follows

theorem told_local (kind : Kind) : Local kind.fields kind.Told := by
  cases kind with
  | account => exact Account.told_local
  | organization => exact Organization.told_local
  | repository => exact Repository.told_local
  | permissions => exact Permissions.told_local
  | permittedRepository => exact PermittedRepository.told_local
  | detailedRepository => exact DetailedRepository.told_local

theorem told_heeds (kind : Kind) : Heeds kind.fields kind.Told := by
  have inner := Row.told_heeds Repository.fields
  cases kind with
  | account => exact (Row.told_heeds _).congr Account.told_iff
  | organization => exact (Row.told_heeds _).congr Organization.told_iff
  | repository => exact inner.congr Repository.told_iff
  | permissions => exact (Row.told_heeds _).congr Permissions.told_iff
  | permittedRepository => exact inner.extended.congr PermittedRepository.told_iff
  | detailedRepository => exact inner.extended.extended.congr DetailedRepository.told_iff

/-- Entries that are handed on are decoded. -/
def Handed (kind : Kind) (entries : List (String × Form)) : Prop :=
  ∀ entry ∈ entries, kind.HandsOn entry.1 -> entry.2.Decodes (nestingAllowance - 1)

theorem handed_around_iff {kind : Kind} {left right : List (String × Form)} {name : String}
    {item : Form} :
    kind.Handed (left ++ (name, item) :: right) ↔
      (kind.HandsOn name -> item.Decodes (nestingAllowance - 1)) ∧
        kind.Handed (left ++ right) := by
  rw [Handed, Handed, List.forall_mem_append, List.forall_mem_cons, List.forall_mem_append]
  exact and_left_comm

/-- Nothing is handed on where an array can stand for the object. -/
theorem handed_of_listed {kind : Kind} (listed : kind.isListed = true)
    (entries : List (String × Form)) : kind.Handed entries := by
  cases kind with
  | account | organization | repository | permissions => exact fun _ _ => False.elim
  | permittedRepository | detailedRepository => cases listed

/-- An object means what its entries tell, if those decode that are handed on. -/
theorem means_object {kind : Kind} {members : List (List Piece × Form)} {a : kind.Data} :
    kind.Means (.object members) a ↔
      Exists fun entries => Form.Keyed members entries ∧ kind.Handed entries ∧
        kind.Told entries a := by
  have listed (isListed : kind.isListed = true) {fieldNames : List String} :
      Listed fieldNames kind.Told (.object members) a ↔
        Exists fun entries => Form.Keyed members entries ∧ kind.Handed entries ∧
          kind.Told entries a := by
    apply listed_object_iff.trans
    apply exists_congr fun entries => and_congr_right fun _ => ?_
    exact (and_iff_right (handed_of_listed isListed entries)).symm
  cases kind with
  | account | organization | repository | permissions => exact listed rfl
  | permittedRepository => exact layered_object_iff
  | detailedRepository => exact layered_object_iff

/-- An array means what its items tell under the names of the members. -/
theorem means_array {kind : Kind} {items : List Form} {a : kind.Data} :
    kind.Means (.array items) a ↔
      kind.isListed = true ∧ items.length ≤ kind.memberNames.length ∧
        kind.Told (kind.memberNames.zip items) a := by
  cases kind with
  | account | organization | repository | permissions =>
      exact listed_array_iff.trans (and_iff_right rfl).symm
  | permittedRepository | detailedRepository =>
      exact ⟨fun given => absurd given not_layered_array, fun given => (nomatch given.1)⟩

/-- What the fields of a kind accept, each accepts on its own. -/
theorem told_accepts (kind : Kind) : Accepts kind.fields kind.Told := by
  have inner := Row.told_accepts Repository.fields
  have permitted : Accepts PermittedRepository.allFields PermittedRepository.RowsTold :=
    inner.extended (by decide)
  cases kind with
  | account => exact (Row.told_accepts _).congr Account.ofRow (fun _ => rfl) Account.told_iff
  | organization =>
      exact (Row.told_accepts _).congr Organization.ofRow (fun _ => rfl) Organization.told_iff
  | repository => exact inner.congr Repository.ofRow (fun _ => rfl) Repository.told_iff
  | permissions =>
      exact (Row.told_accepts _).congr Permissions.ofRow (fun _ => rfl) Permissions.told_iff
  | permittedRepository =>
      exact permitted.congr PermittedRepository.ofRow (fun _ => rfl) PermittedRepository.told_iff
  | detailedRepository =>
      exact (permitted.extended (by decide)).congr DetailedRepository.ofRow (fun _ => rfl)
        DetailedRepository.told_iff

/-- What stands under a name is read as a grammar says. -/
structure Keeps {α : Type} (kind : Kind) (name : String) (means : Form -> α -> Prop) : Prop where
  known : name ∈ names kind.fields
  held : Exists fun codec : Codec α => codec.Follows nestingAllowance means ∧
    ∀ field ∈ kind.fields, field.name = name -> field.Holds name codec

/-- One field decides about its name, for no other has it. -/
theorem keeps_of_field {α : Type} {kind : Kind} {name : String} {means : Form -> α -> Prop}
    {codec : Codec α} {depth : Nat} (follows : codec.Follows depth means)
    (shallow : depth ≤ nestingAllowance) {field : Field} (index : Nat)
    (found : kind.fields[index]? = some field) (holds : field.Holds name codec) :
    kind.Keeps name means := by
  have listed := List.mem_of_getElem? found
  have distinct : (names kind.fields).Nodup := by
    rw [names_fields]
    exact kind.distinct_memberNames
  refine ⟨?_, codec, follows.deeper shallow, fun other otherListed isNamed => ?_⟩
  · rw [← holds.same_name]
    exact List.mem_map_of_mem listed
  · cases List.inj_on_of_nodup_map distinct listed otherListed
      (holds.same_name.trans isNamed.symm)
    exact holds

/-- The field of a part holds a model. -/
theorem keeps_part {kind middle : Kind} {name : String} (part : (name, middle) ∈ kind.parts) :
    kind.Keeps name middle.Means := by
  have holds (index : Nat) {field : Field} (found : kind.fields[index]? = some field)
      (isPart : field.Holds name middle.codec) : kind.Keeps name middle.Means :=
    keeps_of_field middle.codec_follows (Nat.le_refl _) index found isPart
  cases kind with
  | account | organization | permissions => cases part
  | repository =>
      cases List.mem_singleton.mp part
      exact holds 7 rfl .required
  | permittedRepository =>
      simp only [parts, List.mem_cons, List.not_mem_nil, or_false, Prod.mk.injEq] at part
      rcases part with ⟨rfl, rfl⟩ | ⟨rfl, rfl⟩
      · exact holds 8 rfl .required
      · exact holds 0 rfl .optional
  | detailedRepository =>
      simp only [parts, List.mem_cons, List.not_mem_nil, or_false, Prod.mk.injEq] at part
      rcases part with ⟨rfl, rfl⟩ | ⟨rfl, rfl⟩ | ⟨rfl, rfl⟩ | ⟨rfl, rfl⟩ | ⟨rfl, rfl⟩
      · exact holds 16 rfl .required
      · exact holds 8 rfl .optional
      · exact holds 3 rfl .optional
      · exact holds 4 rfl .optional
      · exact holds 5 rfl .optional

end Kind
end Model
end RepoInspector
