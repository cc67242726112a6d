import RepoInspector.Proofs.Model.DetailedRepository

namespace RepoInspector
namespace Model

open Json
open Record

/-!
# What payloads hold

A text that is read as one of the layered models has to be one object, and
what it holds is settled by the entries of that object.
-/

/-- The text is one object, with nothing but blanks around it, and all names of
its members are decoded. -/
def IsObject (text : String) (entries : List (String × Form)) : Prop :=
  Exists fun members =>
    (Form.object members).Written text.toUTF8.toList ∧ Form.Keyed members entries

/-- A text is an object in one way. -/
theorem IsObject.unique {text : String} {first second : List (String × Form)}
    (left : IsObject text first) (right : IsObject text second) : first = second := by
  rcases left with ⟨members, written, keyed⟩
  rcases right with ⟨others, again, also⟩
  cases Form.written_unique written again
  exact keyed.unique also

section Layered

variable {α : Type} {codec : Codec α} {ownNames : List String}
  {told : List (String × Form) -> α -> Prop}

/-- A text of an extended record is an object whose entries tell the record. -/
theorem decode_object_iff
    (follows : codec.Follows nestingAllowance (fun form a => Exists fun members =>
      Exists fun entries => form = .object members ∧ Form.Keyed members entries ∧
        (∀ entry ∈ entries, entry.1 ∉ ownNames -> entry.2.Decodes (nestingAllowance - 1)) ∧
        told entries a)) {text : String} {a : α} :
    codec.decode .text (supplyOfText text) = .ok a ↔
      Exists fun entries => IsObject text entries ∧
        (∀ entry ∈ entries, entry.1 ∉ ownNames -> entry.2.Decodes (nestingAllowance - 1)) ∧
        told entries a := by
  apply (follows.readsForms (Nat.le_refl _)).text.trans
  constructor
  · intro given
    rcases given with ⟨form, written, members, entries, rfl, keyed, decode, isTold⟩
    exact ⟨entries, ⟨members, written, keyed⟩, decode, isTold⟩
  · intro given
    rcases given with ⟨entries, ⟨members, written, keyed⟩, decode, isTold⟩
    exact ⟨.object members, written, members, entries, rfl, keyed, decode, isTold⟩

end Layered

theorem asPayload_eq_ok_iff {α : Type} {result : Except DocumentFault α} {a : α} :
    asPayload result = .ok a ↔ result = .ok a := by
  cases result with
  | ok found => rw [asPayload, Except.ok.injEq, Except.ok.injEq]
  | error fault => exact ⟨nofun, nofun⟩

/-- The member that tells whether pull requests may be merged with a method. -/
def MergeMethod.settingName : MergeMethod -> String
  | .merge => "allow_merge_commit"
  | .squash => "allow_squash_merge"
  | .rebase => "allow_rebase_merge"

/-- An optional truth value that counts as false when it is missing is true
just when a member says so. -/
theorem optional_getD_iff {name : String} {entries : List (String × Form)} {data : Option Bool}
    (isOptional : Optional name IsBoolean entries data) :
    data.getD false = true ↔ (name, Form.boolean true) ∈ entries := by
  rw [← mem_named]
  rcases isOptional with ⟨absent, rfl⟩ | ⟨isNull, rfl⟩ | ⟨form, _, alone, b, isBoolean, rfl⟩
  · rw [absent]
    exact ⟨nofun, nofun⟩
  · rw [isNull]
    refine ⟨nofun, fun listed => ?_⟩
    cases List.mem_singleton.mp listed
  · cases (show form = .boolean b from isBoolean)
    rw [alone, List.mem_singleton, Option.getD_some, Form.boolean.injEq]
    exact eq_comm

namespace DetailedRepository

theorem ofJson_iff {text : String} {detailed : DetailedRepository} :
    ofJson text = .ok detailed ↔ Exists fun entries => IsObject text entries ∧
      (∀ entry ∈ entries, entry.1 ∉ ownNames -> entry.2.Decodes (nestingAllowance - 1)) ∧
      detailed.Told entries :=
  asPayload_eq_ok_iff.trans (decode_object_iff codec_follows)

theorem allows_iff {entries : List (String × Form)} {detailed : DetailedRepository}
    (told : detailed.Told entries) (method : MergeMethod) :
    detailed.allows method = true ↔ (method.settingName, Form.boolean true) ∈ entries := by
  cases method with
  | merge => exact optional_getD_iff told.mergeSetting
  | squash => exact optional_getD_iff told.squashSetting
  | rebase => exact optional_getD_iff told.rebaseSetting

theorem mem_all (method : MergeMethod) : method ∈ MergeMethod.all := by
  cases method <;> decide

theorem mem_allowedMethods {detailed : DetailedRepository} {method : MergeMethod} :
    method ∈ detailed.allowedMethods ↔ detailed.allows method = true := by
  rw [allowedMethods, List.mem_filter, and_iff_right (mem_all method)]

/-- A payload is accepted just when it is an object whose entries tell all three
layers, with everything in it decoded but the details, and then it holds what
they tell.  A merge method is reported when its setting is true, in the order
in which methods are listed. -/
theorem ofJson_exact (text : String) (detailed : DetailedRepository) :
    (ofJson text = .ok detailed ↔ Exists fun entries => IsObject text entries ∧
      (∀ entry ∈ entries, entry.1 ∉ ownNames -> entry.2.Decodes (nestingAllowance - 1)) ∧
      detailed.Told entries) ∧
    (forall entries, IsObject text entries -> ofJson text = .ok detailed ->
      (forall method : MergeMethod, detailed.allows method = true ↔
        (method.settingName, Form.boolean true) ∈ entries) ∧
      (forall method : MergeMethod, method ∈ detailed.allowedMethods ↔
        (method.settingName, Form.boolean true) ∈ entries) ∧
      detailed.allowedMethods.Sublist [.merge, .squash, .rebase]) := by
  refine ⟨ofJson_iff, fun entries isObject accepted => ?_⟩
  rcases ofJson_iff.mp accepted with ⟨others, again, _, told⟩
  cases isObject.unique again
  refine ⟨allows_iff told, fun method => ?_, List.filter_sublist⟩
  rw [mem_allowedMethods, allows_iff told]

/-- A payload with an owner in the form of an array, and with one merge setting. -/
def squashPayload : String :=
  "\x7b\"id\":1,\"name\":\"a\",\"full_name\":\"o/a\",\"owner\":[\"o\",2]," ++
    "\"allow_squash_merge\":true\x7d"

def squashRepository : DetailedRepository where
  base :=
    { repository :=
        { id := 1, name := "a", fullName := "o/a", description := none, isPrivate := false,
          isFork := false, isArchived := false,
          owner := { login := "o", id := 2, avatarUrl := none, htmlUrl := none, kind := none },
          htmlUrl := none, url := none, cloneUrl := none, sshUrl := none, defaultBranch := none,
          stars := 0, forks := 0, createdAt := none, updatedAt := none, pushedAt := none }
      permissions := none }
  squashSetting := some true

theorem ofJson_exact_squash :
    ofJson squashPayload = .ok squashRepository ∧
    squashRepository.allowedMethods = [.squash] ∧
    Exists fun entries => IsObject squashPayload entries ∧
      ("allow_squash_merge", Form.boolean true) ∈ entries ∧
      ("allow_merge_commit", Form.boolean true) ∉ entries := by
  have accepted : ofJson squashPayload = .ok squashRepository := by decide +kernel
  rcases (ofJson_exact squashPayload squashRepository).1.mp accepted with ⟨entries, isObject, _⟩
  have reported := (ofJson_exact squashPayload squashRepository).2 entries isObject accepted
  have squash := (reported.1 .squash).mp rfl
  have merge := mt (reported.1 .merge).mpr (show ¬ squashRepository.allows .merge = true from nofun)
  exact ⟨accepted, rfl, entries, isObject, squash, merge⟩

end DetailedRepository
end Model
end RepoInspector
