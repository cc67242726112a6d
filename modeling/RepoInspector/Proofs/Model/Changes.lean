import RepoInspector.Proofs.Json.Checking
import RepoInspector.Proofs.Json.Writing
import RepoInspector.Proofs.Model.MergeMethod
import RepoInspector.Proofs.Model.Payload
import RepoInspector.Proofs.Record.Changes

namespace RepoInspector
namespace Model

open Json
open Record

/-!
# Models of changed documents

A model is read from what the entries of its object tell, and these are local
to its fields.  So no model depends on the order in which members stand, be it
its own members, those of a model inside of it or those of a value that no
model asks for.  And a payload keeps its meaning when a member that no model
asks for is added to it, wherever that is; but in an object whose members are
handed on to an inner layer such a member has to decode like every other.
-/

namespace Account

theorem told_local : Local fields Told :=
  (Row.told_local fields).congr told_iff

end Account

namespace Organization

theorem told_local : Local fields Told :=
  (Row.told_local fields).congr told_iff

end Organization

namespace Repository

theorem told_local : Local fields Told :=
  (Row.told_local fields).congr told_iff

end Repository

namespace Permissions

theorem told_local : Local fields Told :=
  (Row.told_local fields).congr told_iff

end Permissions

namespace PermittedRepository

/-- The fields of both layers. -/
abbrev allFields : List Field := fields ++ Repository.fields

theorem told_local : Local allFields Told :=
  (Row.told_local Repository.fields).extended.congr told_iff

end PermittedRepository

namespace DetailedRepository

/-- The fields of all three layers. -/
abbrev allFields : List Field := fields ++ PermittedRepository.allFields

theorem told_local : Local allFields Told :=
  (Row.told_local Repository.fields).extended.extended.congr told_iff

end DetailedRepository

/-!
## The order of members
-/

section Scalars

theorem isText_orderless : Orderless IsText := by
  apply Orderless.of_scalar
  · rintro items s ⟨pieces, same, _⟩
    cases same
  · rintro members s ⟨pieces, same, _⟩
    cases same

theorem isBoolean_orderless : Orderless IsBoolean :=
  .of_scalar (fun _ _ => nofun) (fun _ _ => nofun)

theorem isNatural_orderless : Orderless IsNatural := by
  apply Orderless.of_scalar
  · rintro items n ⟨numeral, same, _⟩
    cases same
  · rintro members n ⟨numeral, same, _⟩
    cases same

theorem isInstant_orderless : Orderless IsInstant where
  same reordered := exists_congr fun _ => and_congr_left fun _ => isText_orderless.same reordered

variable {name : String}

theorem text_orderless : Orderless (Field.required name .text).Means :=
  isText_orderless.codec text_follows (Nat.zero_le _)

theorem count_orderless : Orderless (Field.required name .unsigned).Means :=
  isNatural_orderless.codec unsigned_follows (Nat.zero_le _)

theorem flag_orderless : Orderless (Field.defaulted name .boolean false).Means :=
  isBoolean_orderless.codec boolean_follows (Nat.zero_le _)

theorem optional_orderless {α : Type} {codec : Codec α} {depth : Nat} {means : Form -> α -> Prop}
    (orderless : Orderless means) (follows : codec.Follows depth means)
    (shallow : depth ≤ nestingAllowance) : Orderless (Field.optional name codec).Means :=
  orderless.optional.codec (Codec.optional_follows follows) shallow

theorem optionalText_orderless : Orderless (Field.optional name .text).Means :=
  optional_orderless isText_orderless text_follows (Nat.zero_le _)

theorem optionalMoment_orderless : Orderless (Field.optional name .instant).Means :=
  optional_orderless isInstant_orderless instant_follows (Nat.zero_le _)

end Scalars

theorem Account.orderless_fields : OrderlessFields fields :=
  .cons text_orderless (.cons count_orderless (.cons optionalText_orderless
    (.cons optionalText_orderless (.cons optionalText_orderless .nil))))

theorem isAccount_orderless : Orderless IsAccount :=
  Orderless.listed Account.told_local Account.orderless_fields

theorem Organization.orderless_fields : OrderlessFields fields :=
  .cons text_orderless (.cons count_orderless (.cons optionalText_orderless
    (.cons optionalText_orderless (.cons optionalText_orderless (.cons optionalText_orderless
    (.cons optionalText_orderless .nil))))))

theorem isOrganization_orderless : Orderless IsOrganization :=
  Orderless.listed Organization.told_local Organization.orderless_fields

theorem Repository.orderless_fields : OrderlessFields fields := by
  have owner : Orderless (Field.required "owner" Account.codec).Means :=
    isAccount_orderless.codec Account.codec_follows (by decide)
  have total {name : String} : Orderless (Field.defaulted name .unsigned 0).Means :=
    isNatural_orderless.codec unsigned_follows (Nat.zero_le _)
  exact .cons count_orderless (.cons text_orderless (.cons text_orderless
    (.cons optionalText_orderless (.cons flag_orderless (.cons flag_orderless (.cons flag_orderless
    (.cons owner (.cons optionalText_orderless (.cons optionalText_orderless
    (.cons optionalText_orderless (.cons optionalText_orderless (.cons optionalText_orderless
    (.cons total (.cons total (.cons optionalMoment_orderless (.cons optionalMoment_orderless
    (.cons optionalMoment_orderless .nil)))))))))))))))))

theorem isRepository_orderless : Orderless IsRepository :=
  Orderless.listed Repository.told_local Repository.orderless_fields

theorem Permissions.orderless_fields : OrderlessFields fields :=
  .cons flag_orderless (.cons flag_orderless (.cons flag_orderless .nil))

theorem isPermissions_orderless : Orderless IsPermissions :=
  Orderless.listed Permissions.told_local Permissions.orderless_fields

theorem PermittedRepository.orderless_fields : OrderlessFields allFields :=
  .cons (optional_orderless isPermissions_orderless Permissions.codec_follows (by decide))
    Repository.orderless_fields

theorem isPermittedRepository_orderless : Orderless IsPermittedRepository :=
  Orderless.layered PermittedRepository.told_local PermittedRepository.orderless_fields

theorem DetailedRepository.orderless_fields : OrderlessFields allFields := by
  have setting {name : String} : Orderless (Field.optional name .boolean).Means :=
    optional_orderless isBoolean_orderless boolean_follows (Nat.zero_le _)
  have count {name : String} : Orderless (Field.optional name .unsigned).Means :=
    optional_orderless isNatural_orderless unsigned_follows (Nat.zero_le _)
  have organization : Orderless (Field.optional "organization" Organization.codec).Means :=
    optional_orderless isOrganization_orderless Organization.codec_follows (by decide)
  have repository {name : String} : Orderless (Field.optional name Repository.codec).Means :=
    optional_orderless isRepository_orderless Repository.codec_follows (by decide)
  exact .cons setting (.cons setting (.cons setting (.cons organization (.cons repository
    (.cons repository (.cons count (.cons count PermittedRepository.orderless_fields)))))))

theorem isDetailedRepository_orderless : Orderless IsDetailedRepository :=
  Orderless.layered DetailedRepository.told_local DetailedRepository.orderless_fields

theorem isMergeMethod_orderless : Orderless IsMergeMethod := by
  apply Orderless.of_imp
  intro form other method reordered meant
  induction reordered with
  | refl => exact meant
  | trans _ _ first second => exact second (first meant)
  | permuted permuted =>
      cases meant with
      | entry denoted =>
          cases permuted.singleton_eq
          exact .entry denoted
  | item => cases meant
  | @member before after pieces form other inner =>
      generalize same : before ++ (pieces, form) :: after = members at meant
      cases meant with
      | entry denoted =>
          rcases List.append_eq_singleton_iff.mp same with ⟨rfl, single⟩ | ⟨_, impossible⟩
          · cases single
            cases inner.null_iff.mp rfl
            exact .entry denoted
          · cases impossible

/-- Two documents are read directly as the same data, or neither is read. -/
structure ReadAlike {α : Type} (decode : Way -> Supply -> Except DocumentFault α)
    (text other : String) : Prop where
  asText : forall a, decode .text (supplyOfText text) = .ok a ↔
    decode .text (supplyOfText other) = .ok a
  asStream : forall a, decode .stream (supplyOfText text) = .ok a ↔
    decode .stream (supplyOfText other) = .ok a

/-- What `ReadAlike` says, for every model. -/
structure ModelsReadAlike (text other : String) : Prop where
  account : ReadAlike Account.codec.decode text other
  organization : ReadAlike Organization.codec.decode text other
  repository : ReadAlike Repository.codec.decode text other
  permissions : ReadAlike Permissions.codec.decode text other
  permittedRepository : ReadAlike PermittedRepository.codec.decode text other
  detailedRepository : ReadAlike DetailedRepository.codec.decode text other
  mergeMethod : ReadAlike MergeMethod.decode text other
  payload : forall detailed, DetailedRepository.ofJson text = .ok detailed ↔
    DetailedRepository.ofJson other = .ok detailed
  streamedPayload : forall detailed, DetailedRepository.ofStream (supplyOfText text) = .ok detailed ↔
    DetailedRepository.ofStream (supplyOfText other) = .ok detailed

section Texts

variable {text other : String} {form reordered : Form}

/-- Each text has only one form, and these mean the same. -/
theorem readAlike_of_orderless {α : Type} {decode : Way -> Supply -> Except DocumentFault α}
    {means : Form -> α -> Prop} (orderless : Orderless means)
    (reads : Codec.ReadsForms decode means) (written : form.Written text.toUTF8.toList)
    (otherWritten : reordered.Written other.toUTF8.toList)
    (isReordered : form.Reordered reordered) : ReadAlike decode text other := by
  have alike : forall a,
      (Exists fun form : Form => form.Written text.toUTF8.toList ∧ means form a) ↔
        Exists fun form : Form => form.Written other.toUTF8.toList ∧ means form a := by
    intro a
    rw [Form.exists_written_iff written, Form.exists_written_iff otherWritten]
    exact orderless.same isReordered
  exact ⟨fun a => reads.text.trans ((alike a).trans reads.text.symm),
    fun a => reads.stream.trans ((alike a).trans reads.stream.symm)⟩

/-- Texts that differ only in their blanks and in the order of the members of
objects are read as the same model, as texts and as streams, or not at all. -/
theorem order_independence (written : form.Written text.toUTF8.toList)
    (otherWritten : reordered.Written other.toUTF8.toList)
    (isReordered : form.Reordered reordered) : ModelsReadAlike text other := by
  have detailed : ReadAlike DetailedRepository.codec.decode text other :=
    readAlike_of_orderless isDetailedRepository_orderless
      (DetailedRepository.codec_follows.readsForms (Nat.le_refl _)) written otherWritten isReordered
  exact
    { account := readAlike_of_orderless isAccount_orderless
        (Account.codec_follows.readsForms (by decide)) written otherWritten isReordered
      organization := readAlike_of_orderless isOrganization_orderless
        (Organization.codec_follows.readsForms (by decide)) written otherWritten isReordered
      repository := readAlike_of_orderless isRepository_orderless
        (Repository.codec_follows.readsForms (by decide)) written otherWritten isReordered
      permissions := readAlike_of_orderless isPermissions_orderless
        (Permissions.codec_follows.readsForms (by decide)) written otherWritten isReordered
      permittedRepository := readAlike_of_orderless isPermittedRepository_orderless
        (PermittedRepository.codec_follows.readsForms (Nat.le_refl _)) written otherWritten
        isReordered
      detailedRepository := detailed
      mergeMethod := readAlike_of_orderless isMergeMethod_orderless MergeMethod.readsForms written
        otherWritten isReordered
      payload := fun a => asPayload_eq_ok_iff.trans
        ((detailed.asText a).trans asPayload_eq_ok_iff.symm)
      streamedPayload := fun a => asPayload_eq_ok_iff.trans
        ((detailed.asStream a).trans asPayload_eq_ok_iff.symm) }

end Texts

/-- A member as its name is written. -/
def memberOf (name : String) (form : Form) : List Piece × Form := (Piece.ofText name, form)

/-- Members of which two have the same name. -/
def repeatedMembers : List (List Piece × Form) :=
  [memberOf "k" (.number (numeralOf 1)), memberOf "l" .null, memberOf "k" (.number (numeralOf 2))]

/-- The members of an account, with one among them that no field asks for. -/
def accountMembers (members : List (List Piece × Form)) : List (List Piece × Form) :=
  [memberOf "login" (.text (Piece.ofText "a")), memberOf "x" (.array [.object members]),
    memberOf "id" (.number (numeralOf 4))]

def accountText : String :=
  "\x7b\"login\":\"a\",\"x\":[\x7b\"k\":1,\"l\":null,\"k\":2\x7d],\"id\":4\x7d"

/-- The same account with other blanks and with all members the other way round. -/
def reversedAccountText : String :=
  "\x7b \"id\" : 4, \"x\": [\x7b\"k\":2,\"l\":null,\"k\":1\x7d], \"login\": \"a\" \x7d"

theorem order_independence_account :
    ModelsReadAlike accountText reversedAccountText ∧
    Account.codec.decode .stream (supplyOfText reversedAccountText) =
      .ok { login := "a", id := 4, avatarUrl := none, htmlUrl := none, kind := none } := by
  have inside : (Form.object repeatedMembers).Reordered (.object repeatedMembers.reverse) :=
    .permuted (List.reverse_perm _).symm
  have middle : (Form.object (accountMembers repeatedMembers)).Reordered
      (.object (accountMembers repeatedMembers.reverse)) :=
    @Form.Reordered.member [_] [_] _ _ _ (@Form.Reordered.item [] [] _ _ inside)
  have whole : (Form.object (accountMembers repeatedMembers)).Reordered
      (.object (accountMembers repeatedMembers.reverse).reverse) :=
    .trans middle (.permuted (List.reverse_perm _).symm)
  have written : (Form.object (accountMembers repeatedMembers)).Written
      accountText.toUTF8.toList := by decide +kernel
  have otherWritten : (Form.object (accountMembers repeatedMembers.reverse).reverse).Written
      reversedAccountText.toUTF8.toList := by decide +kernel
  have alike : ModelsReadAlike accountText reversedAccountText :=
    order_independence written otherWritten whole
  exact ⟨alike, (alike.account.asStream _).mp (by decide +kernel)⟩

/-!
## Members that no model asks for
-/

section Overlooked

variable {name : String}

/-- Of fields with names of their own, only one has the name of a field. -/
theorem overlooks_only {fields : List Field} {path : List Form.Step}
    (distinct : (names fields).Nodup) {known : Field} (listed : known ∈ fields)
    (overlooks : Overlooks name path known.Means) :
    ∀ field ∈ fields, field.name = known.name -> Overlooks name path field.Means := by
  intro field isField same
  cases List.inj_on_of_nodup_map distinct isField listed same
  exact overlooks

theorem isAccount_overlooks (unknown : name ∉ names Account.fields) :
    Overlooks name [] IsAccount :=
  Overlooks.listed_here Account.told_local unknown

theorem isOrganization_overlooks (unknown : name ∉ names Organization.fields) :
    Overlooks name [] IsOrganization :=
  Overlooks.listed_here Organization.told_local unknown

theorem isPermissions_overlooks (unknown : name ∉ names Permissions.fields) :
    Overlooks name [] IsPermissions :=
  Overlooks.listed_here Permissions.told_local unknown

theorem isRepository_overlooks (unknown : name ∉ names Repository.fields) :
    Overlooks name [] IsRepository :=
  Overlooks.listed_here Repository.told_local unknown

theorem ownerField_overlooks (unknown : name ∉ names Account.fields) :
    Overlooks name [] (Field.required "owner" Account.codec).Means :=
  (isAccount_overlooks unknown).codec Account.codec_follows (by decide)

/-- The steps from a repository to its owner, where it is an object and where it
is an array. -/
def ownerSteps : List Form.Step := [.member "owner", .item 7]

theorem isRepository_overlooks_owner (unknown : name ∉ names Account.fields) {step : Form.Step}
    (isOwner : step ∈ ownerSteps) : Overlooks name [step] IsRepository := by
  have listed : Field.required "owner" Account.codec ∈ Repository.fields :=
    List.mem_of_getElem? (show Repository.fields[7]? = some _ from rfl)
  have overlook := overlooks_only Repository.distinct_names listed (ownerField_overlooks unknown)
  simp only [ownerSteps, List.mem_cons, List.not_mem_nil, or_false] at isOwner
  rcases isOwner with rfl | rfl
  · exact Overlooks.listed_member Repository.told_local overlook
  · exact Overlooks.listed_item Repository.told_local rfl overlook

end Overlooked

/-- The objects of a payload that are read as models. -/
inductive Place
  | payload
  | owner
  | permissions
  | organization
  | parent
  | parentOwner
  | source
  | sourceOwner
deriving DecidableEq, Repr

namespace Place

/-- The paths on which an object is found.  A repository in a payload may be an
array, and its owner is then one of the items. -/
def paths : Place -> List (List Form.Step)
  | .payload => [[]]
  | .owner => [[.member "owner"]]
  | .permissions => [[.member "permissions"]]
  | .organization => [[.member "organization"]]
  | .parent => [[.member "parent"]]
  | .parentOwner => ownerSteps.map fun step => [.member "parent", step]
  | .source => [[.member "source"]]
  | .sourceOwner => ownerSteps.map fun step => [.member "source", step]

/-- What is asked for in an object. -/
def fields : Place -> List Field
  | .payload => DetailedRepository.allFields
  | .owner | .parentOwner | .sourceOwner => Account.fields
  | .permissions => Permissions.fields
  | .organization => Organization.fields
  | .parent | .source => Repository.fields

/-- Whether an object is decoded with everything in it, because it is handed on
to an inner layer. -/
def isDecoded : Place -> Bool
  | .payload | .owner | .permissions => true
  | .organization | .parent | .parentOwner | .source | .sourceOwner => false

end Place

namespace DetailedRepository

theorem distinct_allNames : (names allFields).Nodup := by decide

section Places

variable {name : String} {place : Place} {path : List Form.Step}

/-- A detail overlooks what its model does. -/
theorem overlooks_detail {α : Type} {codec : Codec α} {depth : Nat} {means : Form -> α -> Prop}
    {detail : String} (follows : codec.Follows depth means)
    (shallow : depth ≤ nestingAllowance) (overlooks : Overlooks name path means)
    (listed : Field.optional detail codec ∈ allFields) (own : detail ∈ ownNames) :
    Overlooks name (.member detail :: path) IsDetailedRepository := by
  have field : Overlooks name path (Field.optional detail codec).Means :=
    overlooks.optional.codec (Codec.optional_follows follows) shallow
  exact Overlooks.layered_own told_local (overlooks_only distinct_allNames listed field) own

/-- In a detail nothing that is not asked for matters. -/
theorem overlooks_lenient (lenient : place.isDecoded = false) (found : path ∈ place.paths)
    (unknown : name ∉ names place.fields) : Overlooks name path IsDetailedRepository := by
  have parent : Field.optional "parent" Repository.codec ∈ allFields :=
    List.mem_of_getElem? (show allFields[4]? = some _ from rfl)
  have source : Field.optional "source" Repository.codec ∈ allFields :=
    List.mem_of_getElem? (show allFields[5]? = some _ from rfl)
  cases place with
  | payload | owner | permissions => cases lenient
  | organization =>
      cases List.mem_singleton.mp found
      exact overlooks_detail Organization.codec_follows (by decide)
        (isOrganization_overlooks unknown)
        (List.mem_of_getElem? (show allFields[3]? = some _ from rfl)) (by decide)
  | parent =>
      cases List.mem_singleton.mp found
      exact overlooks_detail Repository.codec_follows (by decide) (isRepository_overlooks unknown)
        parent (by decide)
  | parentOwner =>
      rcases List.mem_map.mp found with ⟨step, isOwner, rfl⟩
      exact overlooks_detail Repository.codec_follows (by decide)
        (isRepository_overlooks_owner unknown isOwner) parent (by decide)
  | source =>
      cases List.mem_singleton.mp found
      exact overlooks_detail Repository.codec_follows (by decide) (isRepository_overlooks unknown)
        source (by decide)
  | sourceOwner =>
      rcases List.mem_map.mp found with ⟨step, isOwner, rfl⟩
      exact overlooks_detail Repository.codec_follows (by decide)
        (isRepository_overlooks_owner unknown isOwner) source (by decide)

/-- In the objects that are handed on, what is not asked for has to decode, and
does not matter otherwise. -/
theorem adds_strict (strict : place.isDecoded = true) (isPath : path ∈ place.paths)
    (unknown : name ∉ names place.fields) {value form grown : Form}
    (adds : Form.Adds name value path form grown) {detailed found : DetailedRepository}
    (meant : IsDetailedRepository form detailed) :
    IsDetailedRepository grown found ↔
      value.Decodes (nestingAllowance - (path.length + 1)) ∧
        IsDetailedRepository form found := by
  cases place with
  | organization | parent | parentOwner | source | sourceOwner => cases strict
  | payload =>
      cases List.mem_singleton.mp isPath
      have notOwn : name ∉ ownNames := fun own =>
        unknown (List.mem_of_mem_take (show name ∈ (names allFields).take 8 from own))
      exact layered_adds_here told_local unknown notOwn adds
  | owner =>
      cases List.mem_singleton.mp isPath
      have listed : Field.required "owner" Account.codec ∈ allFields :=
        List.mem_of_getElem? (show allFields[16]? = some _ from rfl)
      exact layered_adds_inside told_local
        (overlooks_only distinct_allNames listed (ownerField_overlooks unknown)) (by decide) adds
        meant
  | permissions =>
      cases List.mem_singleton.mp isPath
      have listed : Field.optional "permissions" Permissions.codec ∈ allFields :=
        List.mem_of_getElem? (show allFields[8]? = some _ from rfl)
      have field : Overlooks name [] (Field.optional "permissions" Permissions.codec).Means :=
        (isPermissions_overlooks unknown).optional.codec
          (Codec.optional_follows Permissions.codec_follows) (by decide)
      exact layered_adds_inside told_local (overlooks_only distinct_allNames listed field)
        (by decide) adds meant

end Places

/-- Read a payload that is supplied in a medium. -/
def ofMedium (medium : Medium) (text : String) : Except PayloadError DetailedRepository :=
  match medium with
  | .text => ofJson text
  | .stream => ofStream (supplyOfText text)

/-- A payload holds what its form means, however it is supplied. -/
theorem ofMedium_iff {medium : Medium} {text : String} {form : Form}
    (written : form.Written text.toUTF8.toList) {detailed : DetailedRepository} :
    ofMedium medium text = .ok detailed ↔ IsDetailedRepository form detailed := by
  have reads : Codec.ReadsForms codec.decode IsDetailedRepository :=
    codec_follows.readsForms (Nat.le_refl _)
  cases medium with
  | text =>
      exact asPayload_eq_ok_iff.trans (reads.text.trans (Form.exists_written_iff written))
  | stream =>
      exact asPayload_eq_ok_iff.trans (reads.stream.trans (Form.exists_written_iff written))

/-- A value in a text decodes in an object of a payload when it is sound and the
objects around it leave room for its own containers. -/
theorem decodes_at_iff {place : Place} {path : List Form.Step} (isPath : path ∈ place.paths)
    {value : Form} (writable : value.Writable) :
    value.Decodes (nestingAllowance - (path.length + 1)) ↔
      value.Sound ∧ path.length + 1 + value.depth ≤ nestingAllowance := by
  have short : ∀ path ∈ place.paths, path.length + 1 ≤ nestingAllowance := by
    cases place <;> decide
  have enough := short path isPath
  rw [value.decodes_iff _ writable, Nat.le_sub_iff_add_le' enough]

/-- What is read when a member that no field asks for is added to an object that
is handed on. -/
theorem ofMedium_added_iff {place : Place} (strict : place.isDecoded = true)
    {path : List Form.Step} (isPath : path ∈ place.paths)
    {medium : Medium} {text other name : String} {form grown value : Form}
    {detailed : DetailedRepository} (accepted : ofMedium medium text = .ok detailed)
    (written : form.Written text.toUTF8.toList) (otherWritten : grown.Written other.toUTF8.toList)
    (adds : Form.Adds name value path form grown) (unknown : name ∉ names place.fields)
    (found : DetailedRepository) :
    ofMedium medium other = .ok found ↔
      (value.Sound ∧ path.length + 1 + value.depth ≤ nestingAllowance) ∧ found = detailed := by
  have meant := (ofMedium_iff written).mp accepted
  have same : ofMedium medium text = .ok found ↔ found = detailed := by
    rw [accepted, Except.ok.injEq]
    exact eq_comm
  rw [ofMedium_iff otherWritten, adds_strict strict isPath unknown adds meant,
    ← ofMedium_iff written, same, decodes_at_iff isPath (adds.writable otherWritten.writable)]

/-- A member that no field asks for does not matter in a payload that is
accepted, whatever its name and its value, wherever it stands in its object and
on whichever path that object is found.  Where its object is handed on to an
inner layer the payload is still accepted just when the value decodes
completely: its numbers are in range, its surrogates are paired and with the
objects around it no more containers are open at once than are allowed.  In the
details and the accounts in them any value will do. -/
theorem unknown_members_overlooked {place : Place} {path : List Form.Step}
    (isPath : path ∈ place.paths) {medium : Medium} {text other name : String}
    {form grown value : Form} {detailed : DetailedRepository}
    (accepted : ofMedium medium text = .ok detailed) (written : form.Written text.toUTF8.toList)
    (otherWritten : grown.Written other.toUTF8.toList)
    (adds : Form.Adds name value path form grown) (unknown : name ∉ names place.fields) :
    (place.isDecoded = true ->
      ((Exists fun found => ofMedium medium other = .ok found) ↔
        value.Sound ∧ path.length + 1 + value.depth ≤ nestingAllowance) ∧
      forall found, ofMedium medium other = .ok found -> found = detailed) ∧
    (place.isDecoded = false -> ofMedium medium other = .ok detailed) := by
  constructor
  · intro strict
    have added_iff := ofMedium_added_iff strict isPath accepted written otherWritten adds unknown
    constructor
    · constructor
      · intro given
        rcases given with ⟨found, isFound⟩
        exact ((added_iff found).mp isFound).1
      · exact fun decodes => ⟨detailed, (added_iff detailed).mpr ⟨decodes, rfl⟩⟩
    · exact fun found isFound => ((added_iff found).mp isFound).2
  · intro lenient
    rw [ofMedium_iff otherWritten]
    exact ((overlooks_lenient lenient isPath unknown).same adds).mp
      ((ofMedium_iff written).mp accepted)

/-- The text of a payload with these members in its owner, and in the owner of
its parent, which is an array. -/
def nestedText (owner parentOwner : String) : String :=
  "\x7b\"id\":1,\"name\":\"a\",\"full_name\":\"o/a\",\"owner\":\x7b" ++ owner ++
    "\x7d,\"parent\":[10,\"n\",\"f\",null,false,false,false,\x7b" ++ parentOwner ++ "\x7d]\x7d"

/-- The form of this payload. -/
def nestedForm (owner parentOwner : List (List Piece × Form)) : Form :=
  .object [memberOf "id" (.number (numeralOf 1)), memberOf "name" (.text (Piece.ofText "a")),
    memberOf "full_name" (.text (Piece.ofText "o/a")), memberOf "owner" (.object owner),
    memberOf "parent" (.array [.number (numeralOf 10), .text (Piece.ofText "n"),
      .text (Piece.ofText "f"), .null, .boolean false, .boolean false, .boolean false,
      .object parentOwner])]

/-- The members of an account or an organization. -/
def loginMembers : List (List Piece × Form) :=
  [memberOf "login" (.text (Piece.ofText "o")), memberOf "id" (.number (numeralOf 2))]

def loginText : String := "\"login\":\"o\",\"id\":2"

/-- A member whose text is half of a surrogate pair. -/
def halfMember : List Piece × Form := memberOf "x" (.text [.unit 0xd800])

/-- The same members with half of a surrogate pair behind them. -/
def halfText : String := "\"login\":\"o\",\"id\":2,\"x\":\"\\ud800\""

def nestedRepository : DetailedRepository :=
  { squashRepository with
    squashSetting := none
    parent := some
      { squashRepository.base.repository with id := 10, name := "n", fullName := "f" } }

/-- Half of a surrogate pair does not matter in the owner of a parent, which is
an array here, and spoils a payload in its owner. -/
theorem unknown_members_surrogate :
    ofMedium .stream (nestedText loginText halfText) = .ok nestedRepository ∧
    ¬ Exists fun found => ofMedium .stream (nestedText halfText loginText) = .ok found := by
  have accepted : ofMedium .stream (nestedText loginText loginText) = .ok nestedRepository := by
    decide +kernel
  have written : (nestedForm loginMembers loginMembers).Written
      (nestedText loginText loginText).toUTF8.toList := by decide +kernel
  have inParent : (nestedForm loginMembers (loginMembers ++ [halfMember])).Written
      (nestedText loginText halfText).toUTF8.toList := by decide +kernel
  have inOwner : (nestedForm (loginMembers ++ [halfMember]) loginMembers).Written
      (nestedText halfText loginText).toUTF8.toList := by decide +kernel
  have adds : Form.Adds "x" halfMember.2 [] (.object (loginMembers ++ []))
      (.object (loginMembers ++ [halfMember])) := .here (by decide +kernel)
  have addsParent : Form.Adds "x" halfMember.2 [.member "parent", .item 7]
      (nestedForm loginMembers loginMembers)
      (nestedForm loginMembers (loginMembers ++ [halfMember])) :=
    @Form.Adds.member _ _ _ _ [_, _, _, _] [] _ _ _ (by decide +kernel)
      (@Form.Adds.item _ _ _ [_, _, _, _, _, _, _] [] _ _ adds)
  have addsOwner : Form.Adds "x" halfMember.2 [.member "owner"]
      (nestedForm loginMembers loginMembers)
      (nestedForm (loginMembers ++ [halfMember]) loginMembers) :=
    @Form.Adds.member _ _ _ _ [_, _, _] [_] _ _ _ (by decide +kernel) adds
  refine ⟨?_, fun found => ?_⟩
  · have isPath : [.member "parent", .item 7] ∈ Place.parentOwner.paths := by decide
    exact (unknown_members_overlooked isPath accepted written inParent addsParent (by decide)).2
      rfl
  · have isPath : [.member "owner"] ∈ Place.owner.paths := by decide
    have strict := (unknown_members_overlooked isPath accepted written inOwner addsOwner
      (by decide)).1 rfl
    have paired : Piece.Paired [.unit 0xd800] := (strict.1.mp found).1 _ List.mem_cons_self
    cases paired with
    | unit notLeading _ _ => exact absurd notLeading (by decide)

end DetailedRepository
end Model
end RepoInspector
