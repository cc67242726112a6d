import RepoInspector.Proofs.Json.CutReading
import RepoInspector.Proofs.Record.Laws
import RepoInspector.Proofs.Record.Shapes

namespace RepoInspector
namespace Record

open Json

/-!
# Reading data from what is left of a document

Whatever a codec accepts, it refuses to accept a part of it, and never for the
data.  A scalar that breaks off is not interpreted any more, and what is
missing in a record, or too short in its place, is noticed only where the
record is closed.  The one thing that can be lost without notice is the end of
a number, and what is left of one is then as good a number.
-/

/-- A codec refuses what is left of what it accepts, and reports of a scalar that
is not read why it is not. -/
structure Codec.Stops {α : Type} (codec : Codec α) : Prop where
  unread : forall {allowance : Nat} {token : Token} {fault : Fault}, token.read = .error fault ->
    codec.read allowance (.leaf token) = .error fault
  stops : forall place allowance : Nat, Json.Stops place (codec.read allowance)

namespace Codec

variable {α β : Type}

/-- What is left of a scalar breaks off in the same way for every codec. -/
theorem Stops.leaf {codec : Codec α} (stops : codec.Stops) {place allowance : Nat}
    {among : Token -> Prop} {token : Token} (short : CutShort place among token.read) :
    CutShort place among (codec.read allowance (.leaf token)) := by
  rcases short with ⟨fault, failed, ofCut⟩
  exact ⟨fault, stops.unread failed, ofCut⟩

section Scalar

variable {expected : Expectation} {interpret : Value -> Except Mismatch α} {write : α -> Value}

/-- A codec for scalars that takes no numbers, or all whole numbers of 64 bits and
no other ones. -/
theorem scalar_stops
    (alike : forall {n : Number} {a : α}, interpret (.number n) = .ok a ->
      (Exists fun m => n = .natural m) ∧
        forall m, Exists fun b => interpret (.number (.natural m)) = .ok b) :
    (scalar expected interpret write).Stops where
  unread := by
    intro allowance token fault failed
    simp only [scalar, failed]
    rfl
  stops place allowance :=
    { cut := by
        intro node left a cut accepted
        cases cut with
        | before finishes => exact finishes.read.bind _
        | leaf breaks =>
            rcases bind_eq_ok_iff.mp accepted with ⟨value, isRead, _⟩
            exact (breaks.read isRead).bind _
        | array | object => cases accepted
      shorter := by
        intro token part a shortens accepted
        cases shortens with
        | @intro numeral shorter whole _ isNumber natural =>
            rcases bind_eq_ok_iff.mp accepted with ⟨value, isRead, interpreted⟩
            simp only [Token.read, whole] at isRead
            split at isRead
            case h_2 => cases isRead
            case h_1 n inRange =>
              cases isRead
              rcases alike (located_eq_ok_iff.mp interpreted) with ⟨⟨m, rfl⟩, all⟩
              rcases natural ⟨m, inRange⟩ with ⟨k, alsoInRange⟩
              rcases all k with ⟨b, alsoInterpreted⟩
              refine .inl ⟨b, bind_eq_ok_iff.mpr ⟨.number (.natural k), ?_, ?_⟩⟩
              · simp only [Token.read, isNumber, alsoInRange]
              · exact located_eq_ok_iff.mpr alsoInterpreted }

end Scalar

theorem text_stops : text.Stops := scalar_stops nofun

theorem boolean_stops : boolean.Stops := scalar_stops nofun

theorem instant_stops : instant.Stops := scalar_stops nofun

theorem unsigned_stops : unsigned.Stops := by
  apply scalar_stops
  intro n a interpreted
  cases n with
  | natural m => exact ⟨⟨m, rfl⟩, fun k => ⟨k, rfl⟩⟩
  | negative | float => cases interpreted

theorem Stops.through {codec : Codec α} (stops : codec.Stops) (forth : α -> β) (back : β -> α) :
    (codec.through forth back).Stops where
  unread failed := map_eq_error_iff.mpr (stops.unread failed)
  stops place allowance := (stops.stops place allowance).map forth

/-- Nothing that is left of a node is null. -/
theorem not_null_of_cut {place : Nat} {node left : Node} (cut : node.Cut place left)
    (start stop : Nat) : left ≠ .leaf ⟨.null, start, stop⟩ := by
  rintro rfl
  cases cut with
  | before finishes => cases finishes
  | leaf breaks =>
      cases breaks with
      | keyword _ broken | number _ _ broken | text _ broken => cases broken

theorem optional_read_number {codec : Codec α} {allowance : Nat} {token : Token}
    {numeral : Numeral} (isNumber : token.lexeme = .number numeral) :
    codec.optional.read allowance (.leaf token) =
      (codec.read allowance (.leaf token)).map some := by
  apply optional_read_other
  rintro start stop same
  cases same
  cases isNumber

theorem Stops.optional {codec : Codec α} (stops : codec.Stops) : codec.optional.Stops where
  unread := by
    intro allowance token fault failed
    have other : forall start stop, Node.leaf token ≠ .leaf ⟨.null, start, stop⟩ := by
      rintro start stop same
      cases same
      cases failed
    rw [optional_read_other other]
    exact map_eq_error_iff.mpr (stops.unread failed)
  stops place allowance :=
    { cut := by
        intro node left data cut accepted
        rw [optional_read_other (not_null_of_cut cut)]
        by_cases isNull : Exists fun start => Exists fun stop => node = .leaf ⟨.null, start, stop⟩
        · -- The codec itself may refuse null, so it is asked for nothing but the report.
          rcases isNull with ⟨start, stop, rfl⟩
          cases cut with
          | before finishes => exact (stops.leaf finishes.read).map some
          | leaf breaks =>
              have isRead : Token.read ⟨.null, start, stop⟩ = .ok .null := rfl
              exact (stops.leaf (breaks.read isRead)).map some
        · have other : forall start stop, node ≠ .leaf ⟨.null, start, stop⟩ :=
            fun start stop same => isNull ⟨start, stop, same⟩
          rw [optional_read_other other] at accepted
          exact ((stops.stops place allowance).map some).cut cut accepted
      shorter := by
        intro token part data shortens accepted
        cases shortens with
        | intro whole around isNumber natural =>
            rw [optional_read_number whole] at accepted
            rw [optional_read_number isNumber]
            exact ((stops.stops place allowance).map some).shorter
              (.intro whole around isNumber natural) accepted }

end Codec

/-!
## Members
-/

/-- The codecs of fields refuse what is left of what they accept. -/
def StoppingFields (fields : List Field) : Prop := ∀ field ∈ fields, field.codec.Stops

theorem Others.read_stops (kind : Others) (place allowance : Nat) :
    Json.Stops place (kind.read allowance) := by
  cases kind with
  | passed =>
      have isRead : Others.passed.read allowance = fun node => node.pass.map fun _ => none := by
        funext node
        rw [Others.read]
        cases node.pass <;> rfl
      rw [isRead]
      exact (Node.pass_stops place).map _
  | buffered =>
      have isRead : Others.buffered.read allowance =
          fun node => (node.buffer allowance).map some := by
        funext node
        rw [Others.read]
        cases node.buffer allowance <;> rfl
      rw [isRead]
      exact (Node.buffer_stops place allowance).map _

section Fields

variable {fields : List Field} {place allowance : Nat}

/-- How members of a name are taken: one reader reads the value, the slots are
filled with what it gives, and then the further members are taken. -/
structure Taking (kind : Others) (allowance : Nat) (slots : Slots fields) (name : String) where
  Stored : Type
  reader : Node -> Except Fault Stored
  put : Stored -> Slots fields
  join : Stored -> Slots fields × List (String × Value) -> Slots fields × List (String × Value)
  takes : forall {key : Key} (node : Node) (members : List (Key × Node)), key.read = .ok name ->
    readMembers kind allowance slots ((key, node) :: members) =
      (key.colon >>= fun _ => reader node >>= fun stored =>
        readMembers kind allowance (put stored) members >>= fun rest => .ok (join stored rest))

/-- Where a member is accepted, every member of its name is taken by a reader that
refuses what is left of what it accepts. -/
theorem exists_taking (stopping : StoppingFields fields) (place : Nat) {kind : Others} {key : Key}
    {node : Node} {members : List (Key × Node)} {slots : Slots fields}
    {result : Slots fields × List (String × Value)}
    (accepted : readMembers kind allowance slots ((key, node) :: members) = .ok result) :
    Exists fun name => key.read = .ok name ∧
      Exists fun taking : Taking kind allowance slots name => Json.Stops place taking.reader := by
  rcases bind_eq_ok_iff.mp accepted with ⟨name, isName, afterName⟩
  refine ⟨name, isName, ?_⟩
  cases filled : slots.fill? name
    (.ofMismatch (.repeated name) key.next.closingMark)
    (fun field => do
      key.colon
      field.codec.read allowance node) with
  | some found =>
      simp only [filled] at afterName
      rcases bind_eq_ok_iff.mp afterName with ⟨middle, rfl, _⟩
      rcases Slots.fill?_puts filled with ⟨field, listed, put, puts⟩
      refine ⟨⟨field.Stored, field.codec.read allowance, put, fun _ rest => rest, ?_⟩,
        (stopping field listed).stops place allowance⟩
      intro other node members isName
      simp only [readMembers, isName, ok_bind, puts]
      cases other.colon with
      | error fault => rfl
      | ok _ =>
          cases field.codec.read allowance node with
          | error fault => rfl
          | ok stored => exact (bind_pure (readMembers kind allowance (put stored) members)).symm
  | none =>
      have unknown := Slots.fill?_eq_none.mp filled
      refine ⟨⟨Option Value, kind.read allowance, fun _ => slots,
        fun kept rest => (rest.1, kept.elim rest.2 fun value => (name, value) :: rest.2), ?_⟩,
        kind.read_stops place allowance⟩
      intro other node members isName
      simp only [readMembers, isName, ok_bind, Slots.fill?_eq_none.mpr unknown]
      cases other.colon with
      | error fault => rfl
      | ok _ =>
          cases kind.read allowance node with
          | error fault => rfl
          | ok kept =>
              cases readMembers kind allowance slots members <;> cases kept <;> rfl

/-- What is left of members that are accepted is taken up to the end of the
document, or cut short. -/
theorem readMembers_cut (stopping : StoppingFields fields) {kind : Others}
    {members left : List (Key × Node)} {ending : ObjectEnd}
    (cut : Node.CutMembers place members left ending) {slots : Slots fields}
    {result : Slots fields × List (String × Value)}
    (accepted : readMembers kind allowance slots members = .ok result) :
    Halts place (Node.MemberLeaf members) ending.Finishes
      (readMembers kind allowance slots left) := by
  induction members generalizing left slots result with
  | nil =>
      cases cut with
      | ends finishes => exact .inl ⟨finishes, (slots, []), rfl⟩
  | cons member members inductionHypothesis =>
      rcases member with ⟨key, node⟩
      rcases exists_taking stopping place accepted with ⟨name, isName, taking, stops⟩
      rw [taking.takes node members isName] at accepted
      rcases bind_eq_ok_iff.mp accepted with ⟨_, isColon, afterColon⟩
      rcases bind_eq_ok_iff.mp afterColon with ⟨stored, isStored, afterValue⟩
      rcases bind_eq_ok_iff.mp afterValue with ⟨rest, isRest, _⟩
      cases cut with
      | ends finishes => exact .inl ⟨finishes, (slots, []), rfl⟩
      | name whole broken isFront => exact .inr ((Key.read_cut whole broken isFront isName).bind _)
      | colon finishes =>
          rw [taking.takes _ _ (Key.read_next.trans isName)]
          exact .inr ((Key.colon_finishes finishes).bind _)
      | shortens shortens finishes =>
          rw [taking.takes _ _ isName, isColon, ok_bind]
          have single := Halts.last finishes (stops.shorter shortens isStored)
          exact (single.mono Node.MemberLeaf.head).map fun stored =>
            taking.join stored (taking.put stored, [])
      | breaks cut =>
          rw [taking.takes _ _ isName, isColon, ok_bind]
          exact .inr (((stops.cut cut isStored).mono Node.MemberLeaf.head).bind _)
      | later cutRest =>
          rw [taking.takes _ _ isName, isColon, ok_bind, isStored, ok_bind]
          exact ((inductionHypothesis cutRest isRest).mono Node.MemberLeaf.tail).map _

/-!
## Items
-/

/-- Where an array ends with the document, its record is cut short. -/
theorem readItems_finishes {tooShort : Nat -> Mismatch} {index : Nat} {finish : Token}
    (finishes : finish.Finishes) (among : Token -> Prop) :
    CutShort place among
      (readItems allowance tooShort (.unseparated finish) fields index []) := by
  cases fields with
  | nil => exact (finishes.unexpected rfl _).bind _
  | cons field fields => exact (finishes.unexpected rfl _).bind _

/-- What is left of items that are accepted is cut short. -/
theorem readItems_cut (stopping : StoppingFields fields) {tooShort : Nat -> Mismatch}
    {items left : List Node} {close : Token} {ending : ArrayEnd}
    (cut : Node.CutItems place items left ending) {index : Nat} {row : Row fields}
    (accepted : readItems allowance tooShort (.closed close) fields index items = .ok row) :
    CutShort place (Node.ItemLeaf items)
      (readItems allowance tooShort ending fields index left) := by
  induction fields generalizing index items left with
  | nil =>
      cases items with
      | nil =>
          cases cut with
          | ends finishes => exact readItems_finishes finishes _
      | cons item items => cases accepted
  | cons field fields inductionHypothesis =>
      rcases List.forall_mem_cons.mp stopping with ⟨first, others⟩
      have stops := first.stops place allowance
      cases items with
      | nil =>
          cases cut with
          | ends finishes => exact readItems_finishes finishes _
      | cons item items =>
          rcases bind_eq_ok_iff.mp accepted with ⟨stored, isStored, afterItem⟩
          rcases bind_eq_ok_iff.mp afterItem with ⟨row, isRow, _⟩
          cases cut with
          | ends finishes => exact readItems_finishes finishes _
          | shortens shortens finishes =>
              rw [readItems]
              rcases stops.shorter shortens isStored with ⟨other, alsoStored⟩ | short
              · rw [alsoStored, ok_bind]
                exact (readItems_finishes finishes _).bind _
              · exact (short.mono Node.ItemLeaf.head).bind _
          | breaks cut => exact ((stops.cut cut isStored).mono Node.ItemLeaf.head).bind _
          | later cutRest =>
              rw [readItems, isStored, ok_bind]
              exact ((inductionHypothesis others cutRest isRow).mono Node.ItemLeaf.tail).bind _

/-!
## Records
-/

theorem refuseScalar_unread {α : Type} {name : String} {token : Token} {fault : Fault}
    (failed : token.read = .error fault) :
    (refuseScalar name token : Except Fault α) = .error fault := by
  rw [refuseScalar, failed]
  rfl

theorem Codec.record_stops (name : String) (stopping : StoppingFields fields) :
    (Codec.record name fields).Stops where
  unread failed := refuseScalar_unread failed
  stops place allowance :=
    { cut := by
        intro node left row cut accepted
        match cut, allowance with
        | .before finishes, _ => exact finishes.read.bind _
        | .leaf _, _ => exact absurd accepted refuseScalar_ne_ok
        | .array inner, allowance + 1 =>
            exact (readItems_cut stopping inner accepted).mono Node.ItemLeaf.whole
        | .object inner, allowance + 1 =>
            rcases bind_eq_ok_iff.mp accepted with ⟨result, isResult, _⟩
            have halts := readMembers_cut stopping inner isResult
            exact (halts.close fun finishes _ => finishes.read.bind _).mono Node.MemberLeaf.whole
        | .array _, 0 | .object _, 0 => cases accepted
      shorter := fun _ accepted => absurd accepted refuseScalar_ne_ok }

theorem Codec.extending_stops {β : Type} (name : String) (stopping : StoppingFields fields)
    (inner : List (String × Value) -> Except Mismatch β)
    (innerMembers : β -> List (String × Value)) :
    (Codec.extending name fields inner innerMembers).Stops where
  unread failed := refuseScalar_unread failed
  stops place allowance :=
    { cut := by
        intro node left data cut accepted
        match cut, allowance with
        | .before finishes, _ => exact finishes.read.bind _
        | .leaf _, _ => exact absurd accepted refuseScalar_ne_ok
        | .object cutMembers, allowance + 1 =>
            rcases bind_eq_ok_iff.mp accepted with ⟨result, isResult, _⟩
            have halts := readMembers_cut stopping cutMembers isResult
            exact (halts.close fun finishes _ => finishes.read.bind _).mono Node.MemberLeaf.whole
        | .array _, _ | .object _, 0 => cases accepted
      shorter := fun _ accepted => absurd accepted refuseScalar_ne_ok }

end Fields

/-- A codec of any shape refuses what is left of what it accepts. -/
theorem Codec.Shaped.stops {α : Type} {codec : Codec α} {shape : Shape}
    (shaped : codec.Shaped shape) : codec.Stops := by
  induction shaped with
  | text => exact text_stops
  | boolean => exact boolean_stops
  | unsigned => exact unsigned_stops
  | instant => exact instant_stops
  | optional _ stops => exact stops.optional
  | through _ forth back stops => exact stops.through forth back
  | record name _ _ _ _ stopping => exact record_stops name stopping

theorem ShapedFields.stopping {fields : List Field} {inner : String -> Shape}
    (shaped : ShapedFields fields inner) : StoppingFields fields :=
  fun field listed => (shaped field listed).stops

/-!
## Documents
-/

/-- How much is open does not change what kind of fault is reported. -/
theorem cutShort_unopened {α : Type} {place : Nat} {among : Token -> Prop} {root : Node}
    {result : Except Fault α} (short : CutShort place among result) :
    CutShort place among (Tree.unopened root result) := by
  rcases short with ⟨fault, rfl, ofCut⟩
  cases root with
  | array | object => exact ⟨fault, rfl, ofCut⟩
  | leaf token =>
      have category : fault.bare.category = fault.category := by
        unfold Fault.bare
        split <;> rfl
      refine ⟨fault.bare, rfl, ?_⟩
      rwa [Fault.OfCut, category]

/-- A document of one object that does not end in blanks is refused wherever it is
cut off. -/
theorem Codec.Stops.ofDocument {α : Type} {codec : Codec α} (stops : codec.Stops)
    {bytes : List UInt8} {forms : List (List Piece × Form)}
    (written : (Form.object forms).Written bytes)
    (unpadded : ∀ byte ∈ bytes.getLast?, isBlankByte byte = false) {a : α}
    (accepted : codec.ofDocument ⟨bytes, none⟩ = .ok a) {count : Nat}
    (less : count < bytes.length) :
    CutShort count (Supply.tree ⟨bytes, none⟩).root.HasLeaf
      (codec.ofDocument ⟨bytes.take count, none⟩) := by
  rcases Supply.tree_of_cut written unpadded less with ⟨left, cut, isLeft⟩
  rcases bind_eq_ok_iff.mp accepted with ⟨found, unopened, _⟩
  have isRead := Tree.unopened_eq_ok_iff.mp unopened
  rw [Codec.ofDocument, isLeft]
  exact (cutShort_unopened ((stops.stops count nestingAllowance).cut cut isRead)).bind _

end Record
end RepoInspector
