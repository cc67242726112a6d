import RepoInspector.Proofs.Model.Sites

namespace RepoInspector
namespace Model

open Json
open Record

/-!
# Arrays in the place of objects

A model that stands alone is read from an array of its members' values as well
as from an object, by readers that deal with missing and surplus data each in
its own way.  An array is nothing but an object that gives its items to the
first members, wherever it stands.  Models that share their object with others
are not read from arrays.
-/

/-- Members that have the names of a model one after the other decode with the
items that they are given. -/
theorem sameDecoding_array {fieldNames : List String} {items : List Form}
    {members : List (List Piece × Form)} (fits : items.length ≤ fieldNames.length)
    (keyed : Form.Keyed members (fieldNames.zip items)) :
    SameDecoding (.array items) (.object members) := by
  intro allowance
  cases allowance with
  | zero => exact iff_of_false Form.not_decodes_array Form.not_decodes_object
  | succ allowance =>
      have decode_iff : (∀ item ∈ items, item.Decodes allowance) ↔
          ∀ entry ∈ fieldNames.zip items, entry.2.Decodes allowance := by
        rw [← List.forall_mem_map (f := Prod.snd) (P := fun item : Form => item.Decodes allowance),
          List.map_snd_zip fits]
      rw [Form.decodes_array_iff, Form.decodes_object_iff, decode_iff, keyed.exists_iff]

section Kinds

variable {kind : Kind} {items : List Form} {members : List (List Piece × Form)}

theorem alike_array (listed : kind.isListed = true) (fits : items.length ≤ kind.memberNames.length)
    (keyed : Form.Keyed members (kind.memberNames.zip items)) :
    Alike kind.Means (.array items) (.object members) where
  same a := by
    rw [Kind.means_array, Kind.means_object, keyed.exists_iff]
    constructor
    · intro given
      exact ⟨Kind.handed_of_listed listed _, given.2.2⟩
    · intro given
      exact ⟨listed, fits, given.2⟩
  decodes := sameDecoding_array fits keyed
  null_iff := ⟨nofun, nofun⟩

/-- On every way the object of an array's items is seen as the object of the
items that are seen. -/
theorem seen_object (way : Way) (keyed : Form.Keyed members (kind.memberNames.zip items)) :
    Exists fun seenMembers => way.seen (.object members) = .object seenMembers ∧
      Form.Keyed seenMembers (kind.memberNames.zip (items.map way.seen)) := by
  have settled_keyed : Form.Keyed (Form.settledMembers members)
      (kind.memberNames.zip (items.map Form.settled)) := by
    rw [List.zip_map_right]
    exact keyed.settled
  cases way with
  | text | stream =>
      have unchanged : items = items.map id := (List.map_id items).symm
      exact ⟨members, rfl, unchanged ▸ keyed⟩
  | settled =>
      refine ⟨Form.settledMembers members, ?_, settled_keyed⟩
      have firstNames : ((kind.memberNames.zip (items.map Form.settled)).map Prod.fst).Sublist
          kind.memberNames := by
        rw [List.zip_eq_zip_take_min, List.map_fst_zip (by simp)]
        exact List.take_sublist _ _
      have distinct : ((Form.settledMembers members).map fun member =>
          Piece.denoted? member.1).Nodup := by
        rw [settled_keyed.names]
        apply (kind.distinct_memberNames.sublist firstNames).map
        exact fun _ _ same => Option.some.inj same
      exact congrArg Form.object (keepLast_of_nodup distinct)

/-- An array with more items than there are members means nothing. -/
theorem barred_long (long : kind.memberNames.length < items.length) :
    Barred kind.Means (.array items) where
  solid := nofun
  meaningless _ given := Nat.not_le_of_lt long (Kind.means_array.mp given).2.1

theorem barred_unlisted (unlisted : kind.isListed = false) : Barred kind.Means (.array items) where
  solid := nofun
  meaningless _ given := by
    rw [(Kind.means_array.mp given).1] at unlisted
    cases unlisted

end Kinds

/-- Wherever a model is read that stands alone, an array of values is read as the
object that gives them to the first members in order: both are accepted as the
same, or neither is.  An array with a value too many spoils the document, and
so does any array in the place of a model that shares its object. -/
theorem array_read_as_object {way : Way} {outer inner : Kind} {around : Form -> Form}
    (site : Site way outer inner around) {items : List Form} {text : String}
    (written : (around (.array items)).Written text.toUTF8.toList) :
    (inner.isListed = true -> items.length ≤ inner.memberNames.length ->
      forall {members : List (List Piece × Form)} {other : String},
        Form.Keyed members (inner.memberNames.zip items) ->
        (around (.object members)).Written other.toUTF8.toList ->
        forall a, outer.codec.decode way (supplyOfText text) = .ok a ↔
          outer.codec.decode way (supplyOfText other) = .ok a) ∧
    (inner.memberNames.length < items.length ∨ inner.isListed = false ->
      forall a, outer.codec.decode way (supplyOfText text) ≠ .ok a) := by
  constructor
  · intro listed fits members other keyed otherWritten
    rcases seen_object way keyed with ⟨seenMembers, isObject, seenKeyed⟩
    have seenFits : (items.map way.seen).length ≤ inner.memberNames.length := by
      rw [List.length_map]
      exact fits
    have alike : Alike inner.Means (way.seen (.array items)) (way.seen (.object members)) := by
      rw [way.seen_array, isObject]
      exact alike_array listed seenFits seenKeyed
    exact site.decode_congr (sameDecoding_array fits keyed) alike written otherWritten
  · intro spoiled
    apply site.not_decoded ?_ written
    rw [way.seen_array]
    rcases spoiled with long | unlisted
    · apply barred_long
      rw [List.length_map]
      exact long
    · exact barred_unlisted unlisted

/-- The text of a repository with this owner. -/
def ownedText (owner : String) : String :=
  "\x7b\"id\":1,\"name\":\"a\",\"full_name\":\"o/a\",\"owner\":" ++ owner ++ "\x7d"

/-- The form of a repository with this owner. -/
def ownedForm (owner : Form) : Form :=
  .object ([memberOf "id" (.number (numeralOf 1)), memberOf "name" (.text (Piece.ofText "a")),
    memberOf "full_name" (.text (Piece.ofText "o/a"))] ++ [memberOf "owner" owner])

theorem owner_site (way : Way) : Site way .repository .account ownedForm :=
  .member (by decide) (Piece.denoted?_ofText "owner") (fun _ _ => nofun) .here

/-- An owner is read from its login and its number alone, and from no array of
six values. -/
theorem array_read_as_object_owner :
    Repository.codec.decode .settled (supplyOfText (ownedText "[\"o\",2]")) =
      .ok DetailedRepository.squashRepository.repository ∧
    forall repository, Repository.codec.decode .settled
      (supplyOfText (ownedText "[\"o\",2,null,null,null,null]")) ≠ .ok repository := by
  have written : (ownedForm (.array [.text (Piece.ofText "o"), .number (numeralOf 2)])).Written
      (ownedText "[\"o\",2]").toUTF8.toList := by decide +kernel
  have otherWritten : (ownedForm (.object DetailedRepository.loginMembers)).Written
      (ownedText "\x7b\"login\":\"o\",\"id\":2\x7d").toUTF8.toList := by decide +kernel
  have longWritten : (ownedForm (.array [.text (Piece.ofText "o"), .number (numeralOf 2), .null,
      .null, .null, .null])).Written
      (ownedText "[\"o\",2,null,null,null,null]").toUTF8.toList := by decide +kernel
  have keyed : Form.Keyed DetailedRepository.loginMembers (Account.memberNames.zip
      [.text (Piece.ofText "o"), .number (numeralOf 2)]) :=
    .cons (Piece.denoted?_ofText "login") (.cons (Piece.denoted?_ofText "id") .nil)
  constructor
  · have alike := (array_read_as_object (owner_site .settled) written).1 rfl (by decide) keyed
      otherWritten
    exact (alike _).mpr (by decide +kernel)
  · exact (array_read_as_object (owner_site .settled) longWritten).2 (.inl (by decide))

end Model
end RepoInspector
