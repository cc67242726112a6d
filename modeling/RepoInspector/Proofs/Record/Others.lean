import RepoInspector.Proofs.Json.Decodability
import RepoInspector.Proofs.Json.Fronts
import RepoInspector.Record.Reading

namespace RepoInspector

/-!
# Members that no field asks for

The value of a member that no field asks for is passed over, or it is decoded
and kept.  Passing over goes by the grammar alone, with the brackets that are
open as its only memory; decoding also looks at what is said, and counts the
brackets that are open.  The two take the same bytes for the value.  What is
decoded is passed over, and what is passed over and not decoded has a number
out of range, a surrogate without its partner, bytes that encode no character,
or too many brackets open at once.
-/

namespace Json

/-!
## Brackets
-/

inductive Bracket
  | square
  | curly
deriving DecidableEq, Repr

/-- The brackets that are open behind a lexeme, the latest first.  A closing bracket
takes away an opening one, which must be of its own kind. -/
def takeBracket (opened : List Bracket) : Lexeme -> Option (List Bracket)
  | .arrayStart => some (.square :: opened)
  | .objectStart => some (.curly :: opened)
  | .arrayEnd =>
      match opened with
      | .square :: opened => some opened
      | _ => none
  | .objectEnd =>
      match opened with
      | .curly :: opened => some opened
      | _ => none
  | _ => some opened

/-- The brackets that are open behind lexemes, if each that is closed was open. -/
def openedAfter (opened : List Bracket) (lexemes : List Lexeme) : Option (List Bracket) :=
  lexemes.foldlM takeBracket opened

theorem openedAfter_comma (opened : List Bracket) (lexemes : List Lexeme) :
    openedAfter opened (.comma :: lexemes) = openedAfter opened lexemes := rfl

theorem openedAfter_name (opened : List Bracket) (name : List Piece) (lexemes : List Lexeme) :
    openedAfter opened (.closedText name :: .colon :: lexemes) = openedAfter opened lexemes := rfl

theorem openedAfter_append (opened : List Bracket) (first second : List Lexeme) :
    openedAfter opened (first ++ second) =
      (openedAfter opened first).bind fun opened => openedAfter opened second :=
  List.foldlM_append ..

namespace Form

mutual

/-- A form closes each bracket that it opens with one of its own kind, and no other. -/
theorem openedAfter_lexemes (form : Form) (opened : List Bracket) :
    openedAfter opened form.lexemes = some opened := by
  match form with
  | .null | .boolean _ | .number _ | .text _ => rfl
  | .array items =>
      change openedAfter (.square :: opened) (itemLexemes items ++ [.arrayEnd]) = _
      rw [openedAfter_append, openedAfter_items items, Option.bind_some]
      rfl
  | .object members =>
      change openedAfter (.curly :: opened) (memberLexemes members ++ [.objectEnd]) = _
      rw [openedAfter_append, openedAfter_members members, Option.bind_some]
      rfl

theorem openedAfter_items (items : List Form) (opened : List Bracket) :
    openedAfter opened (itemLexemes items) = some opened := by
  match items with
  | [] => rfl
  | item :: items =>
      rw [itemLexemes, openedAfter_append, openedAfter_lexemes item, Option.bind_some,
        openedAfter_laterItems items]

theorem openedAfter_laterItems (items : List Form) (opened : List Bracket) :
    openedAfter opened (laterItemLexemes items) = some opened := by
  match items with
  | [] => rfl
  | item :: items =>
      rw [laterItemLexemes, openedAfter_comma, openedAfter_append, openedAfter_lexemes item,
        Option.bind_some, openedAfter_laterItems items]

theorem openedAfter_members (members : List (List Piece × Form)) (opened : List Bracket) :
    openedAfter opened (memberLexemes members) = some opened := by
  match members with
  | [] => rfl
  | (name, form) :: members =>
      rw [memberLexemes, openedAfter_name, openedAfter_append, openedAfter_lexemes form,
        Option.bind_some, openedAfter_laterMembers members]

theorem openedAfter_laterMembers (members : List (List Piece × Form)) (opened : List Bracket) :
    openedAfter opened (laterMemberLexemes members) = some opened := by
  match members with
  | [] => rfl
  | (name, form) :: members =>
      rw [laterMemberLexemes, openedAfter_comma, openedAfter_name, openedAfter_append,
        openedAfter_lexemes form, Option.bind_some, openedAfter_laterMembers members]

end

end Form

/-!
## Why a value is not decoded
-/

/-- A cause that lies in what a value says and not in its grammar. -/
def Cause.Undecodable : Cause -> Prop
  | .numberOutOfRange | .loneSurrogate | .surrogatePairCut | .badCodePoint | .tooDeep => True
  | _ => False

theorem Spelling.bytes_fault {limit offset : Nat} {pieces : List Piece} {fault : Fault}
    (failed : bytes limit .closed offset pieces = .error fault) : fault.cause.Undecodable := by
  generalize isClosed : SpellingEnd.closed = ending at failed
  fun_induction bytes limit ending offset pieces with
  | case1 offset =>
      subst isClosed
      cases failed
  | case2 offset byte pieces inductionHypothesis | case3 offset byte pieces inductionHypothesis =>
      rcases bind_eq_error_iff.mp failed with before | ⟨_, _, impossible⟩
      · exact inductionHypothesis before
      · cases impossible
  | case4 | case6 | case7 | case9 =>
      cases failed
      trivial
  | case5 =>
      subst isClosed
      cases failed
      trivial
  | case8 | case10 =>
      rename_i inductionHypothesis
      rcases bind_eq_error_iff.mp failed with before | ⟨_, _, impossible⟩
      · exact inductionHypothesis before
      · cases impossible

theorem Spelling.read_fault {limit start : Nat} {pieces : List Piece} {fault : Fault}
    (failed : read limit start ⟨pieces, .closed⟩ = .error fault) : fault.cause.Undecodable := by
  rcases bind_eq_error_iff.mp failed with notPaired | ⟨encoded, _, notEncoded⟩
  · exact bytes_fault notPaired
  · split at notEncoded
    case h_1 => cases notEncoded
    case h_2 =>
      cases notEncoded
      trivial

theorem Token.read_fault {token : Token} {form : Form} (holds : token.Holds form) {fault : Fault}
    (failed : token.read = .error fault) : fault.cause.Undecodable := by
  rcases token with ⟨lexeme, start, stop⟩
  cases form with
  | null | boolean =>
      have same : lexeme = _ := holds
      subst same
      cases failed
  | number numeral =>
      have same : lexeme = .number numeral := holds
      subst same
      simp only [Token.read] at failed
      split at failed
      case h_1 => cases failed
      case h_2 =>
        cases failed
        trivial
  | text pieces =>
      have same : lexeme = .closedText pieces := holds
      subst same
      rcases bind_eq_error_iff.mp failed with notRead | ⟨_, _, impossible⟩
      · exact Spelling.read_fault notRead
      · cases impossible
  | array | object => exact holds.elim

theorem Key.read_fault {key : Key} {pieces : List Piece} (holds : key.Holds pieces) {fault : Fault}
    (failed : key.read = .error fault) : fault.cause.Undecodable := by
  simp only [Key.read, holds.1] at failed
  exact Spelling.read_fault failed

namespace Node

mutual

/-- A whole value is only refused for what it says. -/
theorem buffer_fault {node : Node} {form : Form} (holds : node.Holds form) {allowance : Nat}
    {fault : Fault} (failed : node.buffer allowance = .error fault) : fault.cause.Undecodable := by
  match allowance, holds with
  | _, .leaf scalar => exact Token.read_fault scalar failed
  | 0, .array _ | 0, .object _ =>
      cases failed
      trivial
  | allowance + 1, .array inner =>
      rcases bind_eq_error_iff.mp failed with inItems | ⟨_, _, impossible⟩
      · exact bufferItems_fault inner inItems
      · cases impossible
  | allowance + 1, .object inner =>
      rcases bind_eq_error_iff.mp failed with inMembers | ⟨_, _, impossible⟩
      · exact bufferMembers_fault inner inMembers
      · cases impossible

theorem bufferItems_fault {items : List Node} {forms : List Form} (holds : HoldAll items forms)
    {allowance : Nat} {fault : Fault} (failed : bufferItems allowance items = .error fault) :
    fault.cause.Undecodable := by
  match holds with
  | .nil => cases failed
  | .cons first rest =>
      rcases bind_eq_error_iff.mp failed with inFirst | ⟨_, _, later⟩
      · exact buffer_fault first inFirst
      rcases bind_eq_error_iff.mp later with inRest | ⟨_, _, impossible⟩
      · exact bufferItems_fault rest inRest
      · cases impossible

theorem bufferMembers_fault {members : List (Key × Node)} {forms : List (List Piece × Form)}
    (holds : HoldMembers members forms) {allowance : Nat} {fault : Fault}
    (failed : bufferMembers allowance members = .error fault) : fault.cause.Undecodable := by
  match holds with
  | .nil => cases failed
  | .cons named first rest =>
      rcases bind_eq_error_iff.mp failed with inName | ⟨_, _, later⟩
      · exact Key.read_fault named inName
      rcases bind_eq_error_iff.mp later with noColon | ⟨_, _, later⟩
      · rw [Key.colon_holds named] at noColon
        cases noColon
      rcases bind_eq_error_iff.mp later with inFirst | ⟨_, _, later⟩
      · exact buffer_fault first inFirst
      rcases bind_eq_error_iff.mp later with inRest | ⟨_, _, impossible⟩
      · exact bufferMembers_fault rest inRest
      · cases impossible

end

end Node
end Json

namespace Record

open Json

/-!
## Passing over and keeping
-/

namespace Others

theorem passed_read_iff {allowance : Nat} {node : Node} {kept : Option Value} :
    passed.read allowance node = .ok kept ↔ node.pass = .ok () ∧ kept = none := by
  rw [read, bind_eq_ok_iff]
  constructor
  · intro given
    rcases given with ⟨_, isPassed, done⟩
    cases done
    exact ⟨isPassed, rfl⟩
  · intro given
    rcases given with ⟨isPassed, rfl⟩
    exact ⟨(), isPassed, rfl⟩

theorem buffered_read_iff {allowance : Nat} {node : Node} {kept : Option Value} :
    buffered.read allowance node = .ok kept ↔
      Exists fun value => node.buffer allowance = .ok value ∧ kept = some value := by
  rw [read, bind_eq_ok_iff]
  apply exists_congr
  intro value
  rw [Except.ok.injEq, eq_comm (a := some value)]

theorem buffered_read_error {allowance : Nat} {node : Node} {fault : Fault}
    (failed : buffered.read allowance node = .error fault) :
    node.buffer allowance = .error fault := by
  rcases bind_eq_error_iff.mp failed with inBuffer | ⟨_, _, impossible⟩
  · exact inBuffer
  · cases impossible

end Others

/-- A value is written in `front`, and whatever becomes of it, the reading goes on
behind `front`.  It is passed over, however deep it is nested, and it is kept if
all in it denotes something and the allowance is kept. -/
structure TakenAlike (limit start allowance : Nat) (node : Node) (form : Form)
    (front rest : List UInt8) : Prop where
  used : forall frames, Reading.grow (Token.scan limit none start (front ++ rest)) (.value frames) =
    Reading.grow (Token.scan limit none (start + front.length) rest) (Reading.deliver node frames)
  matched : forall opened, openedAfter opened form.lexemes = some opened
  passed : Others.passed.read allowance node = .ok none
  kept_iff : forall kept, Others.buffered.read allowance node = .ok kept ↔
    Exists fun value => kept = some value ∧ form.Denotes allowance value
  is_kept_iff : (Exists fun kept => Others.buffered.read allowance node = .ok kept) ↔
    form.Denotable ∧ form.depth ≤ allowance
  refused : forall fault, Others.buffered.read allowance node = .error fault ->
    fault.cause.Undecodable

/-- The reading of a value breaks off, and what there is of it is neither passed over
nor kept. -/
structure RefusedAlike (limit start allowance : Nat) (node : Node) (bytes : List UInt8) :
    Prop where
  broken : forall frames, Reading.grow (Token.scan limit none start bytes) (.value frames) =
    Reading.breakOff node frames
  passed : forall kept, Others.passed.read allowance node ≠ .ok kept
  kept : forall kept, Others.buffered.read allowance node ≠ .ok kept

theorem TakenAlike.of_holds {limit start allowance : Nat} {node : Node} {form : Form}
    {front rest : List UInt8} (holds : node.Holds form)
    (used : forall frames,
      Reading.grow (Token.scan limit none start (front ++ rest)) (.value frames) =
        Reading.grow (Token.scan limit none (start + front.length) rest)
          (Reading.deliver node frames)) :
    TakenAlike limit start allowance node form front rest where
  used := used
  matched := form.openedAfter_lexemes
  passed := Others.passed_read_iff.mpr ⟨Node.pass_holds holds, rfl⟩
  kept_iff kept := by
    rw [Others.buffered_read_iff]
    apply exists_congr
    intro value
    rw [Node.buffer_iff holds, and_comm]
  is_kept_iff := by
    rw [← form.decodes_iff_denotable]
    constructor
    · intro given
      rcases given with ⟨kept, isKept⟩
      rcases Others.buffered_read_iff.mp isKept with ⟨value, buffered, _⟩
      exact ⟨value, (Node.buffer_iff holds allowance value).mp buffered⟩
    · intro given
      rcases given with ⟨value, denotes⟩
      have buffered := (Node.buffer_iff holds allowance value).mpr denotes
      exact ⟨some value, Others.buffered_read_iff.mpr ⟨value, buffered, rfl⟩⟩
  refused fault failed := Node.buffer_fault holds (Others.buffered_read_error failed)

theorem RefusedAlike.of_breaks {limit start allowance : Nat} {node : Node} {bytes : List UInt8}
    (breaks : node.Breaks)
    (broken : forall frames, Reading.grow (Token.scan limit none start bytes) (.value frames) =
      Reading.breakOff node frames) :
    RefusedAlike limit start allowance node bytes where
  broken := broken
  passed kept accepted := Node.pass_breaks breaks (Others.passed_read_iff.mp accepted).1
  kept kept accepted := by
    rcases Others.buffered_read_iff.mp accepted with ⟨value, buffered, _⟩
    exact Node.buffer_breaks breaks allowance value buffered

/-- The value of a member that no field asks for takes the same bytes whether it is
passed over or kept.  If a value stands at the front of the bytes behind the name, it
is passed over, and it is kept unless what it says cannot be decoded.  If none does,
neither reader accepts it. -/
theorem others_taken_alike (limit start allowance : Nat) (bytes : List UInt8) :
    Exists fun node : Node =>
      (Exists fun form : Form => Exists fun front => Exists fun rest =>
        bytes = front ++ rest ∧ form.Leads front rest ∧
          TakenAlike limit start allowance node form front rest) ∨
      (forall (form : Form) (front rest : List UInt8), bytes = front ++ rest ->
        ¬ form.Leads front rest) ∧ RefusedAlike limit start allowance node bytes := by
  by_cases leading : Exists fun form : Form => Exists fun front => Exists fun rest =>
      bytes = front ++ rest ∧ form.Leads front rest
  · rcases leading with ⟨form, front, rest, rfl, leads⟩
    rcases leads.read limit start with ⟨node, holds, used⟩
    exact ⟨node, .inl ⟨form, front, rest, rfl, leads, .of_holds holds used⟩⟩
  · have none_leads : forall (form : Form) (front rest : List UInt8), bytes = front ++ rest ->
        ¬ form.Leads front rest :=
      fun form front rest split leads => leading ⟨form, front, rest, split, leads⟩
    rcases Form.breaks_of_no_lead none_leads with ⟨node, breaks, broken⟩
    exact ⟨node, .inr ⟨none_leads, .of_breaks breaks broken⟩⟩

end Record
end RepoInspector
