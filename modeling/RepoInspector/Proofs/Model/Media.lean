import RepoInspector.Model.Payload
import RepoInspector.Proofs.Model.MergeMethod
import RepoInspector.Proofs.Model.Shapes
import RepoInspector.Proofs.Record.Faults

namespace RepoInspector
namespace Model

open Json
open Record

/-!
# The two media

A text is read as it is or as the stream of its bytes.  The two readers scan
it in different ways, one with all its bytes in hand and one byte by byte, and
their answers are the same: one value, or reports of one fault.  A report names
a place, and a stream may be one byte further there because it has been given a
byte that is looked at and not yet used.  Nothing else in a report depends on
the medium.  In particular the check of the encoding, which a stream needs and
a text does not, never decides anything.
-/

/-!
## Codecs and merge methods in texts
-/

theorem PermittedRepository.codec_inherent : codec.Inherent :=
  (Codec.extending_inherent _ shaped_fields.inherent _ _).through ofRow toRow

theorem DetailedRepository.codec_inherent : codec.Inherent :=
  (Codec.extending_inherent _ shaped_fields.inherent _ _).through ofRow toRow

namespace MergeMethod

section Tokens

variable {token : Token} (ofText : token.OfText)

include ofText

theorem ofSpelling_inherently {spelling : Spelling} (isText : token.lexeme = .text spelling) :
    Inherently (ofSpelling token spelling) := by
  have spelled : spelling.OfText := by rwa [Token.OfText, isText] at ofText
  refine (Spelling.OfText.read spelled _ _).bind fun _ _ => ?_
  exact located_inherently (Mark.near_after _) _

theorem ofKey_inherently : Inherently (ofKey token) := by
  unfold ofKey
  split
  case h_1 isText => exact ofSpelling_inherently ofText isText
  case h_2 | h_3 => exact .error (ofText.unexpected trivial trivial)

theorem nothing_inherently : Inherently (nothing token) := by
  unfold nothing
  split
  case h_1 => exact .ok ()
  case h_2 | h_3 => exact .error (Fault.inherent_ofMismatch _ (Mark.near_facing _))
  case h_4 =>
    exact ofText.read.bind fun _ _ => .error (Fault.inherent_ofMismatch _ token.near_scalarMark)

theorem colon_inherently : Inherently (colon token) := by
  unfold colon
  split
  · exact .ok ()
  · exact .error (ofText.unexpected trivial trivial)

theorem close_inherently : Inherently (close token) := by
  unfold close
  split
  case h_1 => exact .ok ()
  case h_2 failure isFinish =>
    have complete : failure = none := by rwa [Token.OfText, isFinish] at ofText
    rw [complete]
    exact .error (inherent_endFault trivial)
  case h_3 => exact .error (Fault.inherent_facing trivial)

/-- This is how any document ends. -/
theorem atEnd_inherently : Inherently (atEnd token) := by
  have whole : Inherently (Tree.mk (.leaf token) (some token)).atEnd :=
    Tree.atEnd_inherently fun _ same => Option.mem_some.mp same ▸ ofText
  exact whole

end Tokens

variable {last : Token} {tokens : List Token}

theorem next_ofText (ending : last.OfText) (all : ∀ token ∈ tokens, token.OfText) :
    (next last tokens).1.OfText ∧ ∀ token ∈ (next last tokens).2, token.OfText := by
  cases tokens with
  | nil => exact ⟨ending, all⟩
  | cons token tokens => exact List.forall_mem_cons.mp all

theorem ofTokens_inherently (ending : last.OfText) (all : ∀ token ∈ tokens, token.OfText) :
    Inherently (ofTokens last tokens) := by
  have ⟨isFirst, behindFirst⟩ := next_ofText ending all
  have ⟨isName, behindName⟩ := next_ofText ending behindFirst
  have ⟨isColon, behindColon⟩ := next_ofText ending behindName
  have ⟨isValue, behindValue⟩ := next_ofText ending behindColon
  have ⟨isClose, _⟩ := next_ofText ending behindValue
  simp only [ofTokens]
  split
  case h_1 isText => exact (ofSpelling_inherently isFirst isText).bind fun _ _ => .ok _
  case h_2 =>
    refine (ofKey_inherently isName).bind fun _ _ => (colon_inherently isColon).bind fun _ _ => ?_
    refine (nothing_inherently isValue).bind fun _ _ => ?_
    exact (close_inherently isClose).bind fun _ _ => .ok _
  case h_3 => exact .error (isFirst.unexpected trivial trivial)

/-- The tokens behind a method are some of those that were there. -/
theorem ofTokens_rest (ending : last.OfText) (all : ∀ token ∈ tokens, token.OfText)
    {taken : MergeMethod × List Token} (accepted : ofTokens last tokens = .ok taken) :
    ∀ token ∈ taken.2, token.OfText := by
  have behindFirst := (next_ofText ending all).2
  have behindName := (next_ofText ending behindFirst).2
  have behindColon := (next_ofText ending behindName).2
  have behindValue := (next_ofText ending behindColon).2
  have behindClose := (next_ofText ending behindValue).2
  simp only [ofTokens] at accepted
  split at accepted
  case h_1 =>
    rcases bind_eq_ok_iff.mp accepted with ⟨_, _, same⟩
    cases same
    exact behindFirst
  case h_2 =>
    rcases bind_eq_ok_iff.mp accepted with ⟨_, _, accepted⟩
    rcases bind_eq_ok_iff.mp accepted with ⟨_, _, accepted⟩
    rcases bind_eq_ok_iff.mp accepted with ⟨_, _, accepted⟩
    rcases bind_eq_ok_iff.mp accepted with ⟨_, _, same⟩
    cases same
    exact behindClose
  case h_3 => cases accepted

/-- Nothing but the document is wrong where a text holds no method. -/
theorem ofDocument_inherently (chars : List Char) :
    Inherently (ofDocument ⟨encodedChars chars, none⟩) := by
  have all : ∀ token ∈ (Supply.mk (encodedChars chars) none).tokens, token.OfText :=
    Token.scan_ofText rfl
  have ending : (Token.mk (.finish none) (encodedChars chars).length
      (encodedChars chars).length).OfText := rfl
  have result := (ofTokens_inherently ending all).bind fun taken accepted =>
    (atEnd_inherently (next_ofText ending (ofTokens_rest ending all accepted)).1).bind
      fun _ _ => .ok taken.1
  simp only [ofDocument, ofSupply]
  split
  case h_1 => exact .ok _
  case h_2 fault failed =>
    have inherent := result fault failed
    rw [inherent.bare]
    exact .error inherent

end MergeMethod

/-!
## Answers
-/

/-- The report of a cause that was noticed behind `offset` bytes of a text. -/
def reportAt (text : String) (cause : Cause) (offset : Nat) : DocumentFault :=
  let place := positionAfter text.toUTF8.toList offset
  { category := cause.category
    message := cause.message ++ " at line " ++ toString place.line ++
      " column " ++ toString place.column }

/-- Two reports of one cause.  The text has used `used` bytes and the stream
has been given at most one more.  The cause is neither that the supply failed
nor that the text is not encoded. -/
inductive ReportedAlike (text : String) : DocumentFault -> DocumentFault -> Prop
  | intro {cause : Cause} {used given : Nat} (supplied : cause.category ≠ .io)
      (encoded : cause ≠ .badCodePoint) (least : used ≤ given) (most : given ≤ used + 1) :
      ReportedAlike text (reportAt text cause used) (reportAt text cause given)

/-- Two answers to one question: equal values, or faults that are alike. -/
inductive AnsweredAlike {ε α : Type} (alike : ε -> ε -> Prop) : Except ε α -> Except ε α -> Prop
  | value (a : α) : AnsweredAlike alike (.ok a) (.ok a)
  | fault {first second : ε} (reported : alike first second) :
      AnsweredAlike alike (.error first) (.error second)

/-- A text is read like the stream of its bytes. -/
def MediaAgree {α : Type} (decode : Way -> Supply -> Except DocumentFault α) (text : String) :
    Prop :=
  AnsweredAlike (ReportedAlike text) (decode .text (supplyOfText text))
    (decode .stream (supplyOfText text))

/-- What is reported of a payload that cannot be read is what is reported of
its document. -/
inductive PayloadsAlike (text : String) : PayloadError -> PayloadError -> Prop
  | parse {first second : DocumentFault} (reported : ReportedAlike text first second) :
      PayloadsAlike text (.parse first) (.parse second)

/-- What `MediaAgree` says, for every model and for payloads. -/
structure ModelsAgree (text : String) : Prop where
  account : MediaAgree Account.codec.decode text
  organization : MediaAgree Organization.codec.decode text
  repository : MediaAgree Repository.codec.decode text
  permissions : MediaAgree Permissions.codec.decode text
  permittedRepository : MediaAgree PermittedRepository.codec.decode text
  detailedRepository : MediaAgree DetailedRepository.codec.decode text
  mergeMethod : MediaAgree MergeMethod.decode text
  payload : AnsweredAlike (PayloadsAlike text) (DetailedRepository.ofJson text)
    (DetailedRepository.ofStream (supplyOfText text))

section Answers

variable {α : Type} {text : String}

/-- What is reported of a fault that has a place, to either reader. -/
theorem ofFault_placed (medium : Medium) (cause : Cause) (mark : Mark) :
    DocumentFault.ofFault text.toUTF8.toList medium ⟨cause, some mark⟩ =
      reportAt text cause (mark.offset medium) := by
  simp only [DocumentFault.ofFault, Fault.message, Fault.category, Medium.position_eq, reportAt]

/-- The reports of an inherent fault. -/
theorem reportedAlike_of_inherent {fault : Fault} (inherent : fault.Inherent) :
    ReportedAlike text (.ofFault text.toUTF8.toList .text fault)
      (.ofFault text.toUTF8.toList .stream fault) := by
  rcases fault with ⟨cause, mark⟩
  rcases inherent with ⟨own, mark, rfl, least, most⟩
  rw [ofFault_placed, ofFault_placed]
  exact .intro own.category_ne_io own.ne_badCodePoint least most

theorem answeredAlike_of_inherently {result : Except Fault α} (inherently : Inherently result) :
    AnsweredAlike (ReportedAlike text) (reported .text (supplyOfText text) result)
      (reported .stream (supplyOfText text) result) := by
  cases result with
  | ok a => exact .value a
  | error fault => exact .fault (reportedAlike_of_inherent (inherently fault rfl))

/-- A text is the supply of its encoded characters. -/
theorem supplyOfText_eq (text : String) : supplyOfText text = ⟨encodedChars text.toList, none⟩ := by
  rw [supplyOfText, toList_toUTF8]

theorem codec_mediaAgree {codec : Codec α} (inherent : codec.Inherent) (text : String) :
    MediaAgree codec.decode text := by
  rw [MediaAgree, Codec.decode_stream]
  apply answeredAlike_of_inherently
  rw [supplyOfText_eq]
  exact Supply.read_inherently (inherent nestingAllowance) text.toList

theorem mergeMethod_mediaAgree (text : String) : MediaAgree MergeMethod.decode text := by
  rw [MediaAgree, MergeMethod.decode_stream]
  apply answeredAlike_of_inherently
  rw [supplyOfText_eq]
  exact MergeMethod.ofDocument_inherently text.toList

theorem payload_answeredAlike {first second : Except DocumentFault α}
    (alike : AnsweredAlike (ReportedAlike text) first second) :
    AnsweredAlike (PayloadsAlike text) (asPayload first) (asPayload second) := by
  cases alike with
  | value a => exact .value a
  | fault reported => exact .fault (.parse reported)

end Answers

/-- Every text, be it a document or not, is answered for every model as the
stream of its bytes is. -/
theorem media_agreement (text : String) : ModelsAgree text :=
  have detailed := codec_mediaAgree DetailedRepository.codec_inherent text
  { account := codec_mediaAgree Account.codec_shaped.inherent text
    organization := codec_mediaAgree Organization.codec_shaped.inherent text
    repository := codec_mediaAgree Repository.codec_shaped.inherent text
    permissions := codec_mediaAgree Permissions.codec_shaped.inherent text
    permittedRepository := codec_mediaAgree PermittedRepository.codec_inherent text
    detailedRepository := detailed
    mergeMethod := mergeMethod_mediaAgree text
    payload := payload_answeredAlike detailed }

end Model
end RepoInspector
