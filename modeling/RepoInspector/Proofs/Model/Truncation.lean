import RepoInspector.Proofs.Model.Refusals
import RepoInspector.Proofs.Record.Cuts
import RepoInspector.Proofs.Record.Unasked

namespace RepoInspector
namespace Model

open Json
open Record

/-!
# Payloads that are cut off

A payload that is cut off anywhere is refused, and the report is that it came
to its end too early.  It never blames the data, so a payload that is saved
only in part is not taken for one of a wrong shape.  Only the end of a number
that no field asks for can be missed so that the number itself is at fault.
-/

/-!
## Reports
-/

namespace DetailedRepository

theorem codec_stops : codec.Stops :=
  (Codec.extending_stops _ shaped_fields.stopping _ _).through ofRow toRow

/-- The shapes of the members of a payload, which are those of all three layers. -/
def payloadMemberShape (name : String) : Shape :=
  if name ∈ names fields then memberShape name
  else if name ∈ names PermittedRepository.fields then Permissions.shape
  else Repository.memberShape name

def payloadShape : Shape :=
  .record (names fields ++ (names PermittedRepository.fields ++ names Repository.fields))
    payloadMemberShape

/-- In an accepted payload a number that is no whole number of 64 bits stands where no
field of any layer asks for it. -/
theorem unasked_of_accepted {node : Node} {form : Form} {detailed : DetailedRepository}
    {token : Token} (holds : node.Holds form) (meant : IsDetailedRepository form detailed)
    (stands : node.HasLeaf token) (unnatural : token.Unnatural) :
    Unasked token payloadShape node := by
  rcases meant with ⟨members, entries, rfl, keyed, _, told⟩
  rcases (told_iff entries detailed).mpr told with ⟨details, inner⟩
  rcases (rowsTold_others entries _).mp inner with ⟨permissions, repository⟩
  cases holds with
  | leaf scalar => exact scalar.elim
  | object holdMembers =>
  refine .of_members holdMembers keyed stands fun {name _ _} listed known held within => ?_
  rw [payloadMemberShape]
  by_cases isDetail : name ∈ names fields
  · rw [if_pos isDetail]
    exact shaped_fields.asking.asks details listed isDetail held within unnatural
  by_cases isPermission : name ∈ names PermittedRepository.fields
  · rw [if_neg isDetail, if_pos isPermission]
    exact PermittedRepository.shaped_fields.asking.asks permissions listed isPermission held within
      unnatural
  · rw [if_neg isDetail, if_neg isPermission]
    have isMember : name ∈ names Repository.fields :=
      (List.mem_append.mp ((List.mem_append.mp known).resolve_left isDetail)).resolve_left
        isPermission
    exact Repository.shaped_fields.asking.asks repository (mem_others.mpr ⟨listed, isPermission⟩)
      isMember held within unnatural

/-- The report of a payload that is cut off: that the document has ended, or that
a number is at fault which no field asks for and which the cut falls into. -/
def CutReport (bytes : List UInt8) (place : Nat) (fault : DocumentFault) : Prop :=
  fault.category = .ended ∨
    fault.category = .grammar ∧ Exists fun token : Token =>
      Unasked token payloadShape (Supply.tree ⟨bytes, none⟩).root ∧ token.Unnatural ∧
        token.Around place

/-- A payload that does not end in blanks is refused wherever it is cut off. -/
theorem report_of_cut {bytes : List UInt8} {detailed : DetailedRepository}
    (accepted : codec.ofDocument ⟨bytes, none⟩ = .ok detailed)
    (unpadded : ∀ byte ∈ bytes.getLast?, isBlankByte byte = false) {count : Nat}
    (less : count < bytes.length) (medium : Medium) :
    Exists fun fault : DocumentFault =>
      asPayload (reported medium ⟨bytes.take count, none⟩
        (codec.ofDocument ⟨bytes.take count, none⟩)) = .error (.parse fault) ∧
      CutReport bytes count fault := by
  rcases (codec_follows.ofDocument_iff (Nat.le_refl _)).mp accepted with
    ⟨complete, form, written, meant⟩
  have isDetailed := meant
  rcases meant with ⟨members, entries, rfl, _⟩
  rcases codec_stops.ofDocument written unpadded accepted less with ⟨fault, refused, ofCut⟩
  rw [refused]
  refine ⟨.ofFault (bytes.take count) medium fault, rfl, ?_⟩
  rcases ofCut with isEnded | ⟨isGrammar, token, stands, unnatural, around⟩
  · exact .inl isEnded
  · rcases Supply.tree_of_written ⟨bytes, none⟩ complete written with
      ⟨root, finish, isTree, holds, _⟩
    rw [isTree] at stands
    refine .inr ⟨isGrammar, token, ?_, unnatural, around⟩
    rw [isTree]
    exact unasked_of_accepted holds isDetailed stands unnatural

end DetailedRepository

/-!
## Payloads that are texts
-/

/-- The byte of an ASCII character is blank when the character is. -/
theorem isBlankByte_ascii {c : Char} (ascii : c.toNat < 128) :
    isBlankByte (UInt8.ofNat c.toNat) = c.isWhitespace := by
  have each : ∀ n : Fin 128, isBlankByte (UInt8.ofNat n.val) = (Char.ofNat n.val).isWhitespace := by
    decide
  have isChar := each ⟨c.toNat, ascii⟩
  rwa [Char.ofNat_toNat] at isChar

/-- A text that does not end in whitespace does not end in a blank byte. -/
theorem unpadded_toUTF8 {text : String}
    (unpadded : ∀ c ∈ text.toList.getLast?, c.isWhitespace = false) :
    ∀ byte ∈ text.toUTF8.toList.getLast?, isBlankByte byte = false := by
  intro byte isLast
  rw [toList_toUTF8] at isLast
  rcases List.eq_nil_or_concat text.toList with empty | ⟨front, c, split⟩
  · rw [empty] at isLast
    cases isLast
  · rw [split, List.concat_eq_append] at unpadded isLast
    have notBlank := unpadded c (by rw [List.getLast?_append]; rfl)
    rw [encodedChars_append, encodedChars, encodedChars, List.flatMap_singleton,
      List.getLast?_append_of_ne_nil _ String.utf8EncodeChar_ne_nil] at isLast
    by_cases small : c.toNat < 128
    · rw [utf8EncodeChar_ascii small] at isLast
      cases isLast
      exact (isBlankByte_ascii small).trans notBlank
    · have high := utf8EncodeChar_high (Nat.le_of_not_lt small) byte (List.mem_of_getLast? isLast)
      exact Bool.eq_false_iff.mpr fun isBlank => absurd (blank_ascii isBlank) (Nat.not_lt.mpr high)

/-- Each part of a text has bytes of its own. -/
theorem length_toUTF8_lt (before : String) {after : String} (someLeft : after ≠ "") :
    before.toUTF8.toList.length < (before ++ after).toUTF8.toList.length := by
  have someByte : encodedChars after.toList ≠ [] := by
    intro empty
    cases chars : after.toList with
    | nil => exact someLeft (String.toList_eq_nil_iff.mp chars)
    | cons c later =>
        rw [chars, encodedChars, List.flatMap_cons] at empty
        exact String.utf8EncodeChar_ne_nil (List.append_eq_nil_iff.mp empty).1
  rw [toList_toUTF8 (before ++ after), String.toList_append, encodedChars_append, ← toList_toUTF8,
    List.length_append]
  exact Nat.lt_add_of_pos_right (List.length_pos_iff.mpr someByte)

/-- A part of a text is supplied by the first of its bytes. -/
theorem supplyOfText_append (before after : String) :
    supplyOfText before =
      ⟨(before ++ after).toUTF8.toList.take before.toUTF8.toList.length, none⟩ := by
  rw [toList_toUTF8 (before ++ after), String.toList_append, encodedChars_append, ← toList_toUTF8,
    List.take_left]
  rfl

namespace DetailedRepository

/-- No part of a payload is accepted, and none is said to hold data of a wrong
shape.  A payload is taken here without blanks behind it, as without them it is
whole too.  A text is cut between characters and a stream between bytes, so also
inside a character, and either is reported to have ended too early, or else the
cut falls into a number that no field asks for. -/
theorem refusal_of_cut :
    (forall (text : String) (detailed : DetailedRepository), ofJson text = .ok detailed ->
      (∀ c ∈ text.toList.getLast?, c.isWhitespace = false) ->
        forall before after : String, text = before ++ after -> after ≠ "" ->
          Exists fun fault : DocumentFault => ofJson before = .error (.parse fault) ∧
            CutReport text.toUTF8.toList before.toUTF8.toList.length fault) ∧
    (forall (bytes : List UInt8) (detailed : DetailedRepository),
      ofStream ⟨bytes, none⟩ = .ok detailed ->
      (∀ byte ∈ bytes.getLast?, isBlankByte byte = false) ->
        forall count, count < bytes.length ->
          Exists fun fault : DocumentFault =>
            ofStream ⟨bytes.take count, none⟩ = .error (.parse fault) ∧
              CutReport bytes count fault) := by
  constructor
  · rintro text detailed accepted unpadded before after rfl someLeft
    have isDocument : codec.ofDocument (supplyOfText (before ++ after)) = .ok detailed :=
      reported_eq_ok_iff.mp (asPayload_eq_ok_iff.mp accepted)
    have less := length_toUTF8_lt before someLeft
    rw [ofJson, supplyOfText_append before after]
    exact report_of_cut isDocument (unpadded_toUTF8 unpadded) less .text
  · intro bytes detailed accepted unpadded count less
    rw [ofStream_eq] at accepted ⊢
    have isDocument : codec.ofDocument ⟨bytes, none⟩ = .ok detailed :=
      reported_eq_ok_iff.mp (asPayload_eq_ok_iff.mp accepted)
    exact report_of_cut isDocument unpadded less .stream

/-- A payload up to the sign of a number that no field asks for, with a character
of two bytes. -/
def plannedPart : String :=
  "\x7b\"id\":1,\"name\":\"é\",\"full_name\":\"o/a\",\"owner\":[\"o\",2]," ++
    "\"organization\":\x7b\"login\":\"o\",\"id\":2,\"plan\":-"

def plannedPayload : String := plannedPart ++ "1\x7d\x7d"

def plannedRepository : DetailedRepository where
  base :=
    { repository := { squashRepository.repository with name := "é" }
      permissions := none }
  organization := some
    { login := "o", id := 2, name := none, description := none, url := none, htmlUrl := none,
      avatarUrl := none }

theorem refusal_of_cut_planned :
    ofJson plannedPayload = .ok plannedRepository ∧
    ofStream ⟨plannedPayload.toUTF8.toList, none⟩ = .ok plannedRepository ∧
    ofJson plannedPart = .error (.parse ⟨.grammar, "invalid number at line 1 column 97"⟩) ∧
    (Exists fun fault : DocumentFault => ofJson plannedPart = .error (.parse fault) ∧
      CutReport plannedPayload.toUTF8.toList plannedPart.toUTF8.toList.length fault) ∧
    Exists fun fault : DocumentFault =>
      ofStream ⟨plannedPayload.toUTF8.toList.take 17, none⟩ = .error (.parse fault) ∧
        CutReport plannedPayload.toUTF8.toList 17 fault := by
  have accepted : ofJson plannedPayload = .ok plannedRepository := by decide +kernel
  have alsoAccepted : ofStream ⟨plannedPayload.toUTF8.toList, none⟩ = .ok plannedRepository := by
    decide +kernel
  have closing : plannedPayload.toList.getLast? = some '\x7d' := by decide +kernel
  have closingByte : plannedPayload.toUTF8.toList.getLast? = some 0x7d := by decide +kernel
  refine ⟨accepted, alsoAccepted, by decide +kernel, ?_, ?_⟩
  · refine refusal_of_cut.1 plannedPayload plannedRepository accepted ?_ plannedPart "1\x7d\x7d"
      rfl (by decide)
    rw [closing]
    rintro c ⟨⟩
    rfl
  · refine refusal_of_cut.2 plannedPayload.toUTF8.toList plannedRepository alsoAccepted ?_ 17
      (by decide +kernel)
    rw [closingByte]
    rintro byte ⟨⟩
    rfl

end DetailedRepository
end Model
end RepoInspector
