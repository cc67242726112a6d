import RepoInspector.Proofs.Model.Payload

namespace RepoInspector
namespace Model

open Json
open Record

/-!
# Reading one text as each layer

A repository, the same with permissions and the same with details are read
from one text along routes that share little: its members are taken as they
are met, or are buffered once, or twice.  The routes agree because each of
them finds what the entries of the text tell, and because an inner layer is
told nothing by the members of the outer ones.  Only how much of the text has
to decode differs from route to route.
-/

section Decoding

variable {α : Type} {name : String} {means : Form -> α -> Prop}
  {entries : List (String × Form)} {data : Option α} {allowance : Nat}

/-- The items of an optional member decode when its data is decoded. -/
theorem Optional.decodes (isOptional : Optional name means entries data)
    (decode : forall form a, data = some a -> means form a -> form.Decodes allowance) :
    ∀ entry ∈ entries, entry.1 = name -> entry.2.Decodes allowance := by
  rintro ⟨other, form⟩ listed rfl
  have isNamed := mem_named.mpr listed
  rcases isOptional with ⟨absent, _⟩ | ⟨isNull, _⟩ | ⟨found, _, alone, a, meant, isData⟩
  · rw [absent] at isNamed
    cases isNamed
  · rw [isNull] at isNamed
    cases List.mem_singleton.mp isNamed
    exact ⟨_, .null⟩
  · rw [alone] at isNamed
    cases List.mem_singleton.mp isNamed
    exact decode form a isData.symm meant

theorem Optional.of_absent (absent : ∀ entry ∈ entries, entry.1 ≠ name) :
    Optional name means entries none :=
  .inl ⟨named_eq_nil absent, rfl⟩

theorem IsBoolean.decodes {form : Form} {b : Bool} (isBoolean : IsBoolean form b) :
    form.Decodes allowance := by
  cases (show form = .boolean b from isBoolean)
  exact ⟨_, .boolean⟩

theorem IsNatural.decodes {form : Form} {n : UInt64} (isNatural : IsNatural form n) :
    form.Decodes allowance := by
  rcases isNatural with ⟨numeral, rfl, parts⟩
  exact ⟨_, .number (Numeral.number_eq_natural_iff.mpr parts)⟩

end Decoding

/-- The names of the members of a text that is decoded into an object. -/
def decodedNames? (text : String) : Option (List String) :=
  match (supplyOfText text).tree.buffer with
  | .ok (.object members) => some (members.map Prod.fst)
  | _ => none

/-- A text that is decoded into an object is one, and everything in it decodes. -/
theorem isObject_of_decodedNames {text : String} {names : List String}
    (isNamed : decodedNames? text = some names) :
    Exists fun entries => IsObject text entries ∧ entries.map Prod.fst = names ∧
      ∀ entry ∈ entries, entry.2.Decodes (nestingAllowance - 1) := by
  unfold decodedNames? at isNamed
  split at isNamed
  case h_2 => cases isNamed
  case h_1 members decoded =>
    cases isNamed
    rcases Supply.buffer_iff.mp decoded with ⟨_, form, written, denotes⟩
    cases denotes with
    | object inner =>
        rcases Form.denoteMembers_iff.mp inner with ⟨entries, keyed, all⟩
        have decode := Form.exists_values_iff.mp ⟨_, all⟩
        exact ⟨entries, ⟨_, written, keyed⟩, names_forall₂ all, decode⟩

theorem Repository.decode_of_told {text : String} {entries : List (String × Form)}
    {repository : Repository} (isObject : IsObject text entries)
    (told : repository.Told entries) :
    codec.decode .text (supplyOfText text) = .ok repository := by
  rcases isObject with ⟨members, written, keyed⟩
  apply (codec_follows.readsForms (by decide)).text.mpr
  exact ⟨.object members, written, entries, .object keyed, told⟩

theorem PermittedRepository.decode_iff {text : String} {permitted : PermittedRepository} :
    codec.decode .text (supplyOfText text) = .ok permitted ↔
      Exists fun entries => IsObject text entries ∧
        (∀ entry ∈ entries, entry.1 ∉ ownNames -> entry.2.Decodes (nestingAllowance - 1)) ∧
        permitted.Told entries :=
  decode_object_iff codec_follows

namespace DetailedRepository

variable {text : String} {entries : List (String × Form)} {detailed : DetailedRepository}

/-- Of a detailed repository's own members only three can fail to decode. -/
theorem own_decodes (told : detailed.Told entries)
    (nested : ∀ entry ∈ entries, entry.1 ∈ ["parent", "source", "organization"] ->
      entry.2.Decodes (nestingAllowance - 1)) :
    ∀ entry ∈ entries, entry.1 ∈ ownNames -> entry.2.Decodes (nestingAllowance - 1) := by
  intro entry listed own
  have boolean : forall form b, IsBoolean form b -> form.Decodes (nestingAllowance - 1) :=
    fun _ _ isBoolean => isBoolean.decodes
  have natural : forall form n, IsNatural form n -> form.Decodes (nestingAllowance - 1) :=
    fun _ _ isNatural => isNatural.decodes
  simp only [ownNames, List.mem_cons, List.not_mem_nil, or_false] at own
  rcases own with squash | merge | rebase | organization | parent | source | network | subscribers
  · exact told.squashSetting.decodes (fun form b _ => boolean form b) entry listed squash
  · exact told.mergeSetting.decodes (fun form b _ => boolean form b) entry listed merge
  · exact told.rebaseSetting.decodes (fun form b _ => boolean form b) entry listed rebase
  · exact nested entry listed (by rw [organization]; decide)
  · exact nested entry listed (by rw [parent]; decide)
  · exact nested entry listed (by rw [source]; decide)
  · exact told.networkCount.decodes (fun form n _ => natural form n) entry listed network
  · exact told.subscribersCount.decodes (fun form n _ => natural form n) entry listed subscribers

theorem repository_of_ofJson (accepted : ofJson text = .ok detailed) :
    Repository.codec.decode .text (supplyOfText text) = .ok detailed.repository := by
  rcases ofJson_iff.mp accepted with ⟨entries, isObject, _, told⟩
  exact Repository.decode_of_told isObject told.base.repository

/-- What a text is read as with permissions is the base of what it is read as
with details. -/
theorem base_unique (accepted : ofJson text = .ok detailed) {permitted : PermittedRepository}
    (alsoAccepted : PermittedRepository.codec.decode .text (supplyOfText text) = .ok permitted) :
    permitted = detailed.base := by
  rcases ofJson_iff.mp accepted with ⟨entries, isObject, _, told⟩
  rcases PermittedRepository.decode_iff.mp alsoAccepted with ⟨others, again, decode, _⟩
  cases isObject.unique again
  have isBase := PermittedRepository.decode_iff.mpr ⟨entries, isObject, decode, told.base⟩
  exact Except.ok.inj (alsoAccepted.symm.trans isBase)

theorem base_of_ofJson (accepted : ofJson text = .ok detailed) (isObject : IsObject text entries)
    (nested : ∀ entry ∈ entries, entry.1 ∈ ["parent", "source", "organization"] ->
      entry.2.Decodes (nestingAllowance - 1)) :
    PermittedRepository.codec.decode .text (supplyOfText text) = .ok detailed.base := by
  rcases ofJson_iff.mp accepted with ⟨others, again, decode, told⟩
  cases isObject.unique again
  refine PermittedRepository.decode_iff.mpr ⟨entries, isObject, fun entry listed _ => ?_, told.base⟩
  by_cases own : entry.1 ∈ ownNames
  · exact own_decodes told nested entry listed own
  · exact decode entry listed own

theorem told_ofBase {base : PermittedRepository} (told : base.Told entries)
    (plain : ∀ entry ∈ entries, entry.1 ∉ ownNames) : (ofBase base).Told entries := by
  have absent : ∀ name ∈ ownNames, ∀ entry ∈ entries, entry.1 ≠ name :=
    fun name own entry listed same => plain entry listed (same ▸ own)
  exact
    { base := told
      squashSetting := .of_absent (absent _ (by decide))
      mergeSetting := .of_absent (absent _ (by decide))
      rebaseSetting := .of_absent (absent _ (by decide))
      organization := .of_absent (absent _ (by decide))
      parent := .of_absent (absent _ (by decide))
      source := .of_absent (absent _ (by decide))
      networkCount := .of_absent (absent _ (by decide))
      subscribersCount := .of_absent (absent _ (by decide)) }

theorem ofJson_of_permitted {permitted : PermittedRepository}
    (accepted : PermittedRepository.codec.decode .text (supplyOfText text) = .ok permitted)
    (isObject : IsObject text entries) (plain : ∀ entry ∈ entries, entry.1 ∉ ownNames)
    (permissions : ∀ entry ∈ entries, entry.1 = "permissions" ->
      entry.2.Decodes (nestingAllowance - 1)) :
    ofJson text = .ok (ofBase permitted) := by
  rcases PermittedRepository.decode_iff.mp accepted with ⟨others, again, decode, told⟩
  cases isObject.unique again
  refine ofJson_iff.mpr ⟨entries, isObject, fun entry listed _ => ?_, told_ofBase told plain⟩
  by_cases own : entry.1 ∈ PermittedRepository.ownNames
  · exact permissions entry listed (List.mem_singleton.mp own)
  · exact decode entry listed own

/-- A text that is read with details is read as the same repository without
them, and as the same base.  The base asks more of the members that it does
not know, which are buffered there and passed over here; conversely only the
permissions are buffered when details are read. -/
theorem flattening_transparent (text : String) :
    (forall detailed, ofJson text = .ok detailed ->
      Repository.codec.decode .text (supplyOfText text) = .ok detailed.repository ∧
      (forall permitted,
        PermittedRepository.codec.decode .text (supplyOfText text) = .ok permitted ->
          permitted = detailed.base) ∧
      (forall entries, IsObject text entries ->
        (∀ entry ∈ entries, entry.1 ∈ ["parent", "source", "organization"] ->
          entry.2.Decodes (nestingAllowance - 1)) ->
        PermittedRepository.codec.decode .text (supplyOfText text) = .ok detailed.base)) ∧
    (forall permitted entries,
      PermittedRepository.codec.decode .text (supplyOfText text) = .ok permitted ->
      IsObject text entries -> (∀ entry ∈ entries, entry.1 ∉ ownNames) ->
      (∀ entry ∈ entries, entry.1 = "permissions" -> entry.2.Decodes (nestingAllowance - 1)) ->
        ofJson text = .ok (ofBase permitted)) := by
  refine ⟨fun detailed accepted => ⟨repository_of_ofJson accepted, ?_, ?_⟩, ?_⟩
  · exact fun permitted alsoAccepted => base_unique accepted alsoAccepted
  · exact fun entries isObject nested => base_of_ofJson accepted isObject nested
  · exact fun permitted entries accepted isObject plain permissions =>
      ofJson_of_permitted accepted isObject plain permissions

/-- A payload without details, with one permission. -/
def pushPayload : String :=
  "\x7b\"id\":1,\"name\":\"a\",\"full_name\":\"o/a\",\"owner\":[\"o\",2]," ++
    "\"permissions\":[false,true]\x7d"

def pushRepository : PermittedRepository where
  repository := squashRepository.repository
  permissions := some { push := true }

theorem flattening_transparent_push :
    ofJson pushPayload = .ok (ofBase pushRepository) ∧
    PermittedRepository.codec.decode .text (supplyOfText pushPayload) = .ok pushRepository ∧
    Repository.codec.decode .text (supplyOfText pushPayload) = .ok pushRepository.repository := by
  have accepted : ofJson pushPayload = .ok (ofBase pushRepository) := by decide +kernel
  have isNamed : decodedNames? pushPayload =
      some ["id", "name", "full_name", "owner", "permissions"] := by decide +kernel
  have apart : ∀ name ∈ ["id", "name", "full_name", "owner", "permissions"], name ∉ ownNames := by
    decide
  rcases isObject_of_decodedNames isNamed with ⟨entries, isObject, names, decode⟩
  rcases (flattening_transparent pushPayload).1 _ accepted with ⟨repository, _, nested⟩
  have permitted := nested entries isObject fun entry listed _ => decode entry listed
  refine ⟨?_, permitted, repository⟩
  refine (flattening_transparent pushPayload).2 _ entries permitted isObject ?_ ?_
  · intro entry listed
    exact apart entry.1 (names ▸ List.mem_map_of_mem listed)
  · exact fun entry listed _ => decode entry listed

end DetailedRepository
end Model
end RepoInspector
