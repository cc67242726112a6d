import RepoInspector.Proofs.Json.Places
import RepoInspector.Proofs.Model.Changes
import RepoInspector.Proofs.Model.Media
import RepoInspector.Proofs.Model.Moments
import RepoInspector.Proofs.Record.Overlong

namespace RepoInspector
namespace Model

open Json
open Record

/-!
# Which fault of a payload is reported

A payload can have many faults at once, and only one is reported.  Its members
are taken in three rounds: the details while the text is read, then the
permissions, then the members of the repository itself, and at last it is
noticed what is missing.  So a fault of an earlier round hides all of the later
ones, wherever they stand, and within a round the text decides.  The later
rounds begin when the object is closed, which is where their faults are
reported.
-/

namespace DetailedRepository

/-- The details that are records themselves. -/
def recordNames : List String := ["organization", "parent", "source"]

/-- Only in the details that are records can an array be overlong. -/
theorem recordNames_of_overlong {name : String} {node : Node}
    (overlong : Overlong (memberShape name) node) : name ∈ recordNames := by
  by_contra unlisted
  simp only [recordNames, List.mem_cons, List.not_mem_nil, or_false, not_or] at unlisted
  rw [memberShape, if_neg unlisted.1, if_neg (not_or.mpr unlisted.2)] at overlong
  cases overlong

end DetailedRepository

/-- How the details of a payload are taken, when the payload itself is open. -/
abbrev detailReception : Reception (Key × Node) Fault := ofNodes (nestingAllowance - 1)

/-- How the members of the inner layers are taken. -/
abbrev innerReception : Reception Value Mismatch := ofValues .buffered

/-- The report of the fault for which an object is refused as a payload.  Its
members are given as they stand in the text and as they are decoded, and `brace`
counts the bytes up to its end. -/
inductive Refusal (text : String) (medium : Medium) (nodes : List (Key × Node))
    (values : List (String × Value)) (brace : Nat) : DocumentFault -> Prop
  /-- The first detail at fault.  Its data is, unless it is a record in which an
  array is too long. -/
  | detail {member : String × (Key × Node)} {fault : Fault}
      (first : detailReception.FirstOffence DetailedRepository.fields (namedMembers nodes)
        member fault)
      (blamed : fault.category = .data ∨
        fault.category = .grammar ∧ member.1 ∈ DetailedRepository.recordNames ∧
          Overlong (DetailedRepository.memberShape member.1) member.2.2) :
      Refusal text medium nodes values brace (.ofFault text.toUTF8.toList medium fault)
  /-- The first member at fault among the permissions, all details being right. -/
  | permission {member : String × Value} {mismatch : Mismatch}
      (details : detailReception.Blameless DetailedRepository.fields (namedMembers nodes))
      (first : innerReception.FirstOffence PermittedRepository.fields values member mismatch) :
      Refusal text medium nodes values brace (reportAt text (.mismatch mismatch) brace)
  /-- The first member at fault of the repository, the others being right. -/
  | member {member : String × Value} {mismatch : Mismatch}
      (details : detailReception.Blameless DetailedRepository.fields (namedMembers nodes))
      (permissions : innerReception.Blameless PermittedRepository.fields values)
      (first : innerReception.FirstOffence Repository.fields values member mismatch) :
      Refusal text medium nodes values brace (reportAt text (.mismatch mismatch) brace)
  /-- The first name that is missing, all members being right. -/
  | missing {name : String}
      (details : detailReception.Blameless DetailedRepository.fields (namedMembers nodes))
      (permissions : innerReception.Blameless PermittedRepository.fields values)
      (members : innerReception.Blameless Repository.fields values)
      (first : ["id", "name", "full_name", "owner"].find?
        (fun name => name ∉ values.map Prod.fst) = some name) :
      Refusal text medium nodes values brace (reportAt text (.mismatch (.missing name)) brace)

namespace DetailedRepository

/-- The layers share no names. -/
theorem apart_permissions : ∀ name ∈ names PermittedRepository.fields, name ∉ names fields := by
  decide

theorem apart_repository : ∀ name ∈ names Repository.fields,
    name ∉ names fields ∧ name ∉ names PermittedRepository.fields := by
  decide

/-- What the inner layers refuse of the members that are no details. -/
theorem refusal_of_inner {text : String} {medium : Medium} {nodes : List (Key × Node)}
    {values : List (String × Value)} {brace : Nat} {mismatch : Mismatch}
    (details : detailReception.Blameless fields (namedMembers nodes))
    (refused : interpretExtended .buffered PermittedRepository.fields
      (interpretRecord .buffered Repository.fields) (others fields values) = .error mismatch) :
    Refusal text medium nodes values brace (reportAt text (.mismatch mismatch) brace) := by
  have apart : ∀ name ∈ names Repository.fields, name ∉ names fields :=
    fun name known => (apart_repository name known).1
  have innerApart : ∀ name ∈ names Repository.fields, name ∉ names PermittedRepository.fields :=
    fun name known => (apart_repository name known).2
  rcases interpretExtended_error PermittedRepository.distinct_names rfl refused with
    ⟨member, first⟩ | ⟨permissions, inner⟩
  · exact .permission details (first.of_others apart_permissions)
  · have permissions := permissions.of_others apart_permissions
    rcases interpretRecord_error Repository.distinct_names inner with
      ⟨member, first⟩ | ⟨members, name, isMissing, rfl⟩
    · exact .member details permissions ((first.of_others innerApart).of_others apart)
    · have members := (members.of_others innerApart).of_others apart
      rw [firstMissing?_congr fun name known =>
        (Reception.mem_names_others innerApart _ known).trans
          (Reception.mem_names_others apart values known)] at isMissing
      exact .missing details permissions members isMissing

/-- What is reported of an object that is refused as a payload. -/
theorem refusal_of_read {text : String} {start close : Token} {nodes : List (Key × Node)}
    {forms : List (List Piece × Form)} (holds : Node.HoldMembers nodes forms)
    {values : List (String × Value)}
    (decoded : Node.bufferMembers (nestingAllowance - 1) nodes = .ok values) {fault : Fault}
    (refused : codec.read nestingAllowance (.object start nodes (.closed close)) = .error fault)
    (medium : Medium) :
    Refusal text medium nodes values close.stop (.ofFault text.toUTF8.toList medium fault) := by
  rcases Codec.extending_error distinct_names rfl holds decoded (map_eq_error_iff.mp refused) with
    ⟨member, first⟩ | ⟨details, mismatch, inner, rfl⟩
  · refine .detail first ?_
    rcases first.blames shaped_fields.blamed holds decoded with isData | ⟨isGrammar, overlong⟩
    · exact .inl isData
    · exact .inr ⟨isGrammar, recordNames_of_overlong overlong, overlong⟩
  · -- Both media count the same bytes where the object is closed.
    have report : DocumentFault.ofFault text.toUTF8.toList medium
        (.ofMismatch mismatch (.after close.stop)) =
          reportAt text (.mismatch mismatch) close.stop := by
      rw [Fault.ofMismatch, ofFault_placed]
      cases medium <;> rfl
    rw [report]
    exact refusal_of_inner details inner

/-- Whatever the medium, a payload is read as it is with all its bytes in hand. -/
theorem ofMedium_eq (medium : Medium) (text : String) :
    ofMedium medium text =
      asPayload (reported medium (supplyOfText text) (codec.ofDocument (supplyOfText text))) := by
  cases medium with
  | text => rfl
  | stream => exact ofStream_eq (supplyOfText text)

end DetailedRepository

/-- A text that is one object is refused in both media, and what is reported is a
refusal of its members. -/
def RefusedAsObject (text : String) (values : List (String × Value)) : Prop :=
  Exists fun start : Token => Exists fun nodes : List (Key × Node) =>
    Exists fun close : Token => Exists fun finish : Token =>
      (supplyOfText text).tree = ⟨.object start nodes (.closed close), some finish⟩ ∧
      ClosedAt close.stop text.toUTF8.toList ∧
      forall medium : Medium, Exists fun fault : DocumentFault =>
        DetailedRepository.ofMedium medium text = .error (.parse fault) ∧
          Refusal text medium nodes values close.stop fault

/-- A payload that is one object and can be decoded completely is refused for the
first of its faults, in the order of the four kinds and then of the text, by
both media.  Faults behind the details stand where the object is closed. -/
theorem refusal_of_object {text : String} {values : List (String × Value)}
    (decoded : (supplyOfText text).tree.buffer = .ok (.object values)) {medium : Medium}
    {error : PayloadError} (refused : DetailedRepository.ofMedium medium text = .error error) :
    RefusedAsObject text values := by
  rcases Supply.buffer_iff.mp decoded with ⟨complete, form, written, denotes⟩
  cases denotes with
  | object denoteMembers =>
  rcases Supply.tree_of_object (supplyOfText text) complete written with
    ⟨start, nodes, close, finish, isTree, holds, isFinish, closed⟩
  have isObject : Node.bufferMembers (nestingAllowance - 1) nodes = .ok values :=
    (Node.bufferMembers_iff holds _ values).mpr denoteMembers
  have isDocument : DetailedRepository.codec.ofDocument (supplyOfText text) =
      DetailedRepository.codec.read nestingAllowance (.object start nodes (.closed close)) := by
    rw [Codec.ofDocument, isTree, Tree.read]
    cases DetailedRepository.codec.read nestingAllowance (.object start nodes (.closed close)) with
    | error fault => rfl
    | ok detailed => simp only [Tree.unopened, ok_bind, Tree.atEnd, isFinish]
  refine ⟨start, nodes, close, finish, isTree, closed, ?_⟩
  rw [DetailedRepository.ofMedium_eq, isDocument] at refused
  cases isRead : DetailedRepository.codec.read nestingAllowance
      (.object start nodes (.closed close)) with
  | ok detailed =>
      rw [isRead] at refused
      cases refused
  | error fault =>
      intro medium
      refine ⟨_, ?_, DetailedRepository.refusal_of_read holds isObject isRead medium⟩
      rw [DetailedRepository.ofMedium_eq, isDocument, isRead]
      rfl

/-- A payload with faults of three kinds, none of them a detail. -/
def jumbledText : String :=
  "\x7b\"stargazers_count\": null,\n\"permissions\": \x7b\"admin\": 1\x7d,\n" ++
    "\"network_count\": 2\x7d\n"

def jumbledValues : List (String × Value) :=
  [("stargazers_count", .null), ("permissions", .object [("admin", .number (.natural 1))]),
    ("network_count", .number (.natural 2))]

/-- The forms of the values. -/
def jumbledEntries : List (String × Form) :=
  [("stargazers_count", .null),
    ("permissions", .object (membersOf [("admin", .number (numeralOf 1))])),
    ("network_count", .number (numeralOf 2))]

theorem refusal_of_object_jumbled :
    (supplyOfText jumbledText).tree.buffer = .ok (.object jumbledValues) ∧
    (forall medium, DetailedRepository.ofMedium medium jumbledText =
      .error (.parse ⟨.data, "invalid type: integer `1`, expected a boolean at line 3 column 19"⟩)) ∧
    RefusedAsObject jumbledText jumbledValues := by
  have decoded : (supplyOfText jumbledText).tree.buffer = .ok (.object jumbledValues) := by
    apply Supply.buffer_iff.mpr
    have name (s : String) : Piece.denoted? (Piece.ofText s) = some s := Piece.denoted?_ofText s
    refine ⟨rfl, .object (membersOf jumbledEntries), by decide +kernel, .object ?_⟩
    exact .cons (name _) .null
      (.cons (name _) (.object (.cons (name _) (.number (number_numeralOf 1)) .nil))
        (.cons (name _) (.number (number_numeralOf 2)) .nil))
  have refused : forall medium, DetailedRepository.ofMedium medium jumbledText =
      .error (.parse ⟨.data, "invalid type: integer `1`, expected a boolean at line 3 column 19"⟩) := by
    intro medium
    cases medium <;> decide +kernel
  exact ⟨decoded, refused, refusal_of_object decoded (refused .text)⟩

end Model
end RepoInspector
