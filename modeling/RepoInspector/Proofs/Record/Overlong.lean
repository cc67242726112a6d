import RepoInspector.Proofs.Record.Offences
import RepoInspector.Proofs.Record.Shapes

namespace RepoInspector
namespace Record

open Json

/-!
# Refusals of data that can be decoded

When everything in a tree can be decoded, a codec has nothing to complain of
but the data, with one exception: of an array that stands for a record and is
longer than the record, it looks at the next item and finds that something
follows where the array should end.  The shape of the data, in which only the
places of records count, says where such arrays can stand.
-/

/-- An array in the place of a record has more items than the record has fields. -/
inductive Overlong : Shape -> Node -> Prop
  | here {fieldNames : List String} {inner : String -> Shape} {start : Token} {items : List Node}
      {ending : ArrayEnd} (long : fieldNames.length < items.length) :
      Overlong (.record fieldNames inner) (.array start items ending)
  | item {fieldNames : List String} {inner : String -> Shape} {start : Token} {items : List Node}
      {ending : ArrayEnd} {name : String} {item : Node}
      (placed : (name, item) ∈ fieldNames.zip items) (within : Overlong (inner name) item) :
      Overlong (.record fieldNames inner) (.array start items ending)
  | member {fieldNames : List String} {inner : String -> Shape} {start : Token}
      {members : List (Key × Node)} {ending : ObjectEnd} {name : String} {member : Key × Node}
      (known : name ∈ fieldNames) (listed : (name, member) ∈ namedMembers members)
      (within : Overlong (inner name) member.2) :
      Overlong (.record fieldNames inner) (.object start members ending)

/-- A fault is one of the data, or of the grammar where an array is overlong. -/
def Blames (shape : Shape) (node : Node) (fault : Fault) : Prop :=
  fault.category = .data ∨ fault.category = .grammar ∧ Overlong shape node

/-- Of what can be decoded, a codec blames the data and the length of arrays. -/
def Codec.Blames {α : Type} (codec : Codec α) (shape : Shape) : Prop :=
  forall ⦃allowance : Nat⦄ ⦃node : Node⦄ ⦃form : Form⦄ ⦃value : Value⦄ ⦃fault : Fault⦄,
    node.Holds form -> node.buffer allowance = .ok value ->
      codec.read allowance node = .error fault -> Record.Blames shape node fault

namespace Codec

variable {α β : Type}

theorem blames_scalar (expected : Expectation) (interpret : Value -> Except Mismatch α)
    (write : α -> Value) : (scalar expected interpret write).Blames .scalar := by
  intro allowance node form value fault _ decoded refused
  cases node with
  | leaf token =>
      have isRead : token.read = .ok value := decoded
      simp only [scalar, isRead, ok_bind] at refused
      cases interpreted : interpret value with
      | ok a =>
          rw [interpreted] at refused
          cases refused
      | error mismatch =>
          rw [interpreted] at refused
          cases refused
          exact .inl rfl
  | array start items ending =>
      cases refused
      exact .inl rfl
  | object start members ending =>
      cases refused
      exact .inl rfl

theorem blames_text : text.Blames .scalar := blames_scalar _ _ _

theorem blames_boolean : boolean.Blames .scalar := blames_scalar _ _ _

theorem blames_unsigned : unsigned.Blames .scalar := blames_scalar _ _ _

theorem blames_instant : instant.Blames .scalar := blames_scalar _ _ _

theorem Blames.through {codec : Codec α} {shape : Shape} (blames : codec.Blames shape)
    (forth : α -> β) (back : β -> α) : (codec.through forth back).Blames shape := by
  intro allowance node form value fault holds decoded refused
  exact blames holds decoded (map_eq_error_iff.mp refused)

theorem Blames.optional {codec : Codec α} {shape : Shape} (blames : codec.Blames shape) :
    codec.optional.Blames shape := by
  intro allowance node form value fault holds decoded refused
  simp only [Codec.optional] at refused
  split at refused
  case h_1 => cases refused
  case h_2 => exact blames holds decoded (map_eq_error_iff.mp refused)

end Codec

/-- The codecs of fields blame what is blamed inside a record. -/
def BlamedFields (fields : List Field) (inner : String -> Shape) : Prop :=
  ∀ field ∈ fields, field.codec.Blames (inner field.name)

section Fields

variable {fields : List Field} {inner : String -> Shape}

/-- Reading items fails for the data, at an overlong array among the items, or
because there are too many. -/
theorem readItems_blames (blamed : BlamedFields fields inner) {allowance : Nat}
    {tooShort : Nat -> Mismatch} {close : Token} {index : Nat} {items : List Node}
    {forms : List Form} (holds : Node.HoldAll items forms) {values : List Value}
    (decoded : Node.bufferItems allowance items = .ok values) {fault : Fault}
    (refused : readItems allowance tooShort (.closed close) fields index items = .error fault) :
    fault.category = .data ∨ fault.category = .grammar ∧
      ((names fields).length < items.length ∨
        Exists fun name => Exists fun item =>
          (name, item) ∈ (names fields).zip items ∧ Overlong (inner name) item) := by
  induction fields generalizing index items forms values with
  | nil =>
      cases items with
      | nil => cases refused
      | cons item items =>
          cases refused
          exact .inr ⟨rfl, .inl (Nat.succ_pos _)⟩
  | cons field fields inductionHypothesis =>
      rcases List.forall_mem_cons.mp blamed with ⟨first, others⟩
      cases items with
      | nil =>
          simp only [readItems, ArrayEnd.read, ok_bind] at refused
          split at refused
          case h_1 =>
            cases refused
            exact .inl rfl
          case h_2 =>
            rcases bind_eq_error_iff.mp refused with later | ⟨row, _, impossible⟩
            · cases holds
              rcases inductionHypothesis others .nil rfl later with isData | ⟨isGrammar, where_⟩
              · exact .inl isData
              · rcases where_ with long | ⟨name, item, placed, _⟩
                · exact absurd long (Nat.not_lt_zero _)
                · rw [List.zip_nil_right] at placed
                  cases placed
            · cases impossible
      | cons item items =>
          cases holds with
          | cons held heldLater =>
          rcases bind_eq_ok_iff.mp decoded with ⟨value, isValue, afterValue⟩
          rcases bind_eq_ok_iff.mp afterValue with ⟨values, isLater, _⟩
          rcases bind_eq_error_iff.mp refused with here | ⟨stored, _, afterItem⟩
          · rcases first held isValue here with isData | ⟨isGrammar, within⟩
            · exact .inl isData
            · exact .inr ⟨isGrammar, .inr ⟨field.name, item, List.mem_cons_self, within⟩⟩
          · rcases bind_eq_error_iff.mp afterItem with later | ⟨row, _, impossible⟩
            · rcases inductionHypothesis others heldLater isLater later with
                isData | ⟨isGrammar, long | ⟨name, item, placed, within⟩⟩
              · exact .inl isData
              · exact .inr ⟨isGrammar, .inl (Nat.succ_lt_succ long)⟩
              · exact .inr ⟨isGrammar, .inr ⟨name, item, List.mem_cons_of_mem _ placed, within⟩⟩
            · cases impossible

/-- Each member of an object that holds a form holds one. -/
theorem holds_of_mem {members : List (Key × Node)} {forms : List (List Piece × Form)}
    (holds : Node.HoldMembers members forms) {key : Key} {node : Node}
    (listed : (key, node) ∈ members) : Exists fun form => node.Holds form := by
  induction members generalizing forms with
  | nil => cases listed
  | cons member members inductionHypothesis =>
      cases holds with
      | cons _ held others =>
      rcases List.mem_cons.mp listed with same | later
      · cases same
        exact ⟨_, held⟩
      · exact inductionHypothesis others later

/-- What is reported of a member that is at fault is a fault of its data, or of an
overlong array in it. -/
theorem Reception.FirstOffence.blames (blamed : BlamedFields fields inner) {allowance : Nat}
    {members : List (Key × Node)} {forms : List (List Piece × Form)}
    (holds : Node.HoldMembers members forms) {values : List (String × Value)}
    (decoded : Node.bufferMembers allowance members = .ok values)
    {member : String × (Key × Node)} {fault : Fault}
    (first : (ofNodes allowance).FirstOffence fields (namedMembers members) member fault) :
    Record.Blames (inner member.1) member.2.2 fault := by
  rcases member with ⟨name, key, node⟩
  have listed := mem_of_namedMembers first.mem
  rcases first with ⟨before, after, _, _, offends⟩
  cases offends with
  | repeated => exact .inl rfl
  | refused isField named _ refuses =>
      rcases Node.bufferMembers_mem decoded listed with ⟨_, value, _, _, isValue⟩
      rcases holds_of_mem holds listed with ⟨form, held⟩
      exact named ▸ blamed _ isField held isValue refuses

/-- A record blames the data that it holds, or an overlong array. -/
theorem Codec.blames_record (name : String) (distinct : (names fields).Nodup)
    (blamed : BlamedFields fields inner) :
    (Codec.record name fields).Blames (.record (names fields) inner) := by
  intro allowance node form value fault holds decoded refused
  cases holds with
  | leaf scalar =>
      rcases bind_eq_error_iff.mp refused with unread | ⟨found, _, isFault⟩
      · have isRead : Token.read _ = .ok value := decoded
        rw [isRead] at unread
        cases unread
      · cases isFault
        exact .inl rfl
  | array inside =>
      cases allowance with
      | zero => cases decoded
      | succ allowance =>
          rcases bind_eq_ok_iff.mp decoded with ⟨values, isItems, _⟩
          rcases readItems_blames blamed inside isItems refused with
            isData | ⟨isGrammar, long | ⟨name, item, placed, within⟩⟩
          · exact .inl isData
          · exact .inr ⟨isGrammar, .here long⟩
          · exact .inr ⟨isGrammar, .item placed within⟩
  | object inside =>
      cases allowance with
      | zero => cases decoded
      | succ allowance =>
          rcases bind_eq_ok_iff.mp decoded with ⟨values, isMembers, _⟩
          rcases bind_eq_error_iff.mp refused with unsorted | ⟨⟨slots, rest⟩, _, after⟩
          · have outcome := readMembers_outcome .passed distinct (Slots.mark_empty fields)
              (Reception.blameless_nil (ofNodes allowance) fields) inside isMembers
            rw [unsorted] at outcome
            cases outcome with
            | @error member fault first =>
                rcases first.blames blamed inside isMembers with isData | ⟨isGrammar, within⟩
                · exact .inl isData
                · exact .inr ⟨isGrammar, .member first.known first.mem within⟩
          · have incomplete : located _ slots.complete = .error fault := after
            cases completed : slots.complete with
            | ok row =>
                rw [completed] at incomplete
                cases incomplete
            | error mismatch =>
                rw [completed] at incomplete
                cases incomplete
                exact .inl rfl

/-- A codec of any shape blames the data and the length of arrays. -/
theorem Codec.Shaped.blames {α : Type} {codec : Codec α} {shape : Shape}
    (shaped : codec.Shaped shape) : codec.Blames shape := by
  induction shaped with
  | text => exact blames_text
  | boolean => exact blames_boolean
  | unsigned => exact blames_unsigned
  | instant => exact blames_instant
  | optional _ blames => exact blames.optional
  | through _ forth back blames => exact blames.through forth back
  | record name _ _ distinct _ blamed => exact blames_record name distinct blamed

theorem ShapedFields.blamed (shaped : ShapedFields fields inner) : BlamedFields fields inner :=
  fun field listed => (shaped field listed).blames

end Fields

end Record
end RepoInspector
