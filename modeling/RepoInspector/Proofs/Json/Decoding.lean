import RepoInspector.Proofs.Json.Growth

namespace RepoInspector
namespace Json

/-!
# Decoding forms

What a form denotes does not depend on where it stands.  A text denotes the
characters of its pieces when surrogates come in pairs, a numeral denotes a
number when it is in range, and containers may be nested only as deep as an
allowance.  Buffering a node gives what its form denotes, passing it over asks
for nothing but the grammar, and both reject a node that breaks.
-/

namespace Piece

/-- The encoded characters that pieces denote, if surrogates come in pairs. -/
def encoded? : List Piece -> Option (List UInt8)
  | [] => some []
  | .raw byte :: pieces => (encoded? pieces).map (byte :: ·)
  | .short byte :: pieces => (encoded? pieces).map (byte :: ·)
  | .unit code :: pieces =>
      if Spelling.isTrailing code then none
      else if Spelling.isLeading code then
        match pieces with
        | .unit second :: pieces =>
            if Spelling.isTrailing second then
              (encoded? pieces).map (String.utf8EncodeChar (Spelling.pairChar code second) ++ ·)
            else none
        | _ => none
      else (encoded? pieces).map (String.utf8EncodeChar (Char.ofNat code.toNat) ++ ·)

/-- The text that pieces denote. -/
def denoted? (pieces : List Piece) : Option String :=
  (encoded? pieces).bind fun bytes => String.fromUTF8? bytes.toByteArray

end Piece

/-- A numeral is a whole number of 64 bits when it has neither a sign nor a
fraction nor an exponent, and its digits denote the number. -/
theorem Numeral.number_eq_natural_iff {numeral : Numeral} {n : UInt64} :
    numeral.number = .ok (.natural n) ↔
      numeral.negative = false ∧ numeral.fraction = none ∧ numeral.exponent = none ∧
        Digit.value numeral.whole = n.toNat := by
  have small : n.toNat < wordLimit := n.toNat_lt
  simp only [Numeral.number]
  split
  case isTrue plain =>
    simp only [Bool.and_eq_true, Option.isNone_iff_eq_none, Bool.not_eq_true',
      decide_eq_true_eq] at plain
    rcases plain with ⟨⟨⟨noFraction, noExponent⟩, positive⟩, fits⟩
    simp only [noFraction, noExponent, positive, true_and]
    constructor
    · intro done
      cases done
      exact (UInt64.toNat_ofNat_of_lt' fits).symm
    · intro same
      rw [same, UInt64.ofNat_toNat]
  case isFalse notPlain =>
    constructor
    · intro done
      split at done
      case isTrue => cases done
      case isFalse =>
        rcases bind_eq_ok_iff.mp done with ⟨magnitude, _, isFloat⟩
        cases isFloat
    · intro given
      rcases given with ⟨positive, noFraction, noExponent, same⟩
      refine absurd ?_ notPlain
      rw [positive, noFraction, noExponent, same]
      simpa using small

namespace Spelling

variable {limit start offset : Nat}

theorem bind_ok_iff_map {bytes : List UInt8} {result : Except Fault (List UInt8)}
    {rest : Option (List UInt8)} (f : List UInt8 -> List UInt8)
    (same : forall bytes, result = .ok bytes ↔ rest = some bytes) :
    (do let rest ← result
        .ok (f rest)) = .ok bytes ↔ rest.map f = some bytes := by
  rw [bind_eq_ok_iff, Option.map_eq_some_iff]
  constructor
  · intro given
    rcases given with ⟨found, isFound, done⟩
    exact ⟨found, (same found).mp isFound, Except.ok.inj done⟩
  · intro given
    rcases given with ⟨found, isFound, done⟩
    exact ⟨found, (same found).mpr isFound, congrArg Except.ok done⟩

theorem bytes_closed (offset : Nat) (pieces : List Piece) (encoded : List UInt8) :
    bytes limit .closed offset pieces = .ok encoded ↔ Piece.encoded? pieces = some encoded := by
  fun_induction Piece.encoded? pieces generalizing offset encoded with
  | case1 =>
      constructor
      · intro done; cases done; rfl
      · intro done; cases done; rfl
  | case2 byte pieces inductionHypothesis =>
      exact bind_ok_iff_map (byte :: ·) (inductionHypothesis (offset + 1))
  | case3 byte pieces inductionHypothesis =>
      exact bind_ok_iff_map (byte :: ·) (inductionHypothesis (offset + 2))
  | case4 code pieces trailing =>
      rw [bytes.eq_def]
      simp only [if_pos trailing]
      exact ⟨nofun, nofun⟩
  | case5 code trailing leading second pieces paired inductionHypothesis =>
      rw [bytes.eq_def]
      simp only [if_neg trailing, if_pos leading, if_pos paired]
      exact bind_ok_iff_map _ (inductionHypothesis (offset + 12))
  | case6 code trailing leading second pieces unpaired =>
      rw [bytes.eq_def]
      simp only [if_neg trailing, if_pos leading, if_neg unpaired]
      exact ⟨nofun, nofun⟩
  | case7 code pieces trailing leading single =>
      rw [bytes.eq_def]
      simp only [if_neg trailing, if_pos leading]
      cases pieces with
      | nil => exact ⟨nofun, nofun⟩
      | cons piece pieces =>
          cases piece with
          | raw byte => exact ⟨nofun, nofun⟩
          | short byte => exact ⟨nofun, nofun⟩
          | unit second => exact absurd rfl (single second pieces)
  | case8 code pieces trailing leading inductionHypothesis =>
      rw [bytes.eq_def]
      simp only [if_neg trailing, if_neg leading]
      exact bind_ok_iff_map _ (inductionHypothesis (offset + 6))

theorem readEnding_open {ending : SpellingEnd} (isOpen : ending ≠ .closed) :
    readEnding limit offset ending ≠ .ok () := by
  cases ending with
  | closed => exact absurd rfl isOpen
  | control | unknownEscape | unknownUnit => exact nofun
  | cut failure => cases failure <;> exact nofun

theorem bind_ne_ok {result : Except Fault (List UInt8)} (f : List UInt8 -> List UInt8)
    (never : forall found, result ≠ .ok found) (encoded : List UInt8) :
    (do let rest ← result
        .ok (f rest)) ≠ .ok encoded := by
  intro done
  rcases bind_eq_ok_iff.mp done with ⟨found, isFound, _⟩
  exact never found isFound

/-- A text that does not end with its closing quote is not read. -/
theorem bytes_open {ending : SpellingEnd} (isOpen : ending ≠ .closed) (offset : Nat)
    (pieces : List Piece) (encoded : List UInt8) :
    bytes limit ending offset pieces ≠ .ok encoded := by
  fun_induction bytes limit ending offset pieces generalizing encoded with
  | case1 offset =>
      intro done
      rcases bind_eq_ok_iff.mp done with ⟨ended, isOk, _⟩
      exact readEnding_open isOpen isOk
  | case2 offset byte pieces inductionHypothesis => exact bind_ne_ok _ inductionHypothesis _
  | case3 offset byte pieces inductionHypothesis => exact bind_ne_ok _ inductionHypothesis _
  | case4 | case5 | case6 | case7 | case9 => exact nofun
  | case8 => rename_i inductionHypothesis; exact bind_ne_ok _ inductionHypothesis _
  | case10 => rename_i inductionHypothesis; exact bind_ne_ok _ inductionHypothesis _

/-- Reading a closed text gives what its pieces denote. -/
theorem read_closed (pieces : List Piece) (s : String) :
    read limit start ⟨pieces, .closed⟩ = .ok s ↔ Piece.denoted? pieces = some s := by
  rw [read, bind_eq_ok_iff, Piece.denoted?, Option.bind_eq_some_iff]
  apply exists_congr
  intro encoded
  rw [bytes_closed]
  cases String.fromUTF8? encoded.toByteArray with
  | none => exact ⟨fun done => (nomatch done.2), fun done => (nomatch done.2)⟩
  | some text => rw [Except.ok.injEq, Option.some.injEq]

theorem read_open {spelling : Spelling} (isOpen : spelling.ending ≠ .closed) (s : String) :
    read limit start spelling ≠ .ok s := by
  intro done
  rcases bind_eq_ok_iff.mp done with ⟨encoded, isEncoded, _⟩
  exact bytes_open isOpen _ _ _ isEncoded

theorem pass_closed (pieces : List Piece) : pass limit start ⟨pieces, .closed⟩ = .ok () := rfl

theorem pass_open {spelling : Spelling} (isOpen : spelling.ending ≠ .closed) :
    pass limit start spelling ≠ .ok () := by
  rcases spelling with ⟨pieces, ending⟩
  cases ending with
  | closed => exact absurd rfl isOpen
  | control | unknownEscape | unknownUnit => exact nofun
  | cut failure => cases failure <;> exact nofun

end Spelling

mutual

/-- What a form denotes when `allowance` further containers may be open at once. -/
inductive Form.Denotes : Nat -> Form -> Value -> Prop
  | null {allowance : Nat} : Denotes allowance .null .null
  | boolean {allowance : Nat} {b : Bool} : Denotes allowance (.boolean b) (.boolean b)
  | number {allowance : Nat} {numeral : Numeral} {n : Number}
      (inRange : numeral.number = .ok n) : Denotes allowance (.number numeral) (.number n)
  | text {allowance : Nat} {pieces : List Piece} {s : String}
      (denoted : Piece.denoted? pieces = some s) : Denotes allowance (.text pieces) (.text s)
  | array {allowance : Nat} {items : List Form} {values : List Value}
      (inner : Form.DenoteAll allowance items values) :
      Denotes (allowance + 1) (.array items) (.array values)
  | object {allowance : Nat} {members : List (List Piece × Form)}
      {values : List (String × Value)} (inner : Form.DenoteMembers allowance members values) :
      Denotes (allowance + 1) (.object members) (.object values)

inductive Form.DenoteAll : Nat -> List Form -> List Value -> Prop
  | nil {allowance : Nat} : DenoteAll allowance [] []
  | cons {allowance : Nat} {item : Form} {items : List Form} {value : Value}
      {values : List Value} (first : Form.Denotes allowance item value)
      (rest : Form.DenoteAll allowance items values) :
      DenoteAll allowance (item :: items) (value :: values)

inductive Form.DenoteMembers : Nat -> List (List Piece × Form) -> List (String × Value) -> Prop
  | nil {allowance : Nat} : DenoteMembers allowance [] []
  | cons {allowance : Nat} {pieces : List Piece} {name : String} {form : Form} {value : Value}
      {members : List (List Piece × Form)} {values : List (String × Value)}
      (named : Piece.denoted? pieces = some name) (first : Form.Denotes allowance form value)
      (rest : Form.DenoteMembers allowance members values) :
      DenoteMembers allowance ((pieces, form) :: members) ((name, value) :: values)

end

/-- A form decodes completely. -/
def Form.Decodes (allowance : Nat) (form : Form) : Prop :=
  Exists fun value => form.Denotes allowance value

namespace Token

/-- Reading a scalar gives what it denotes. -/
theorem read_iff {token : Token} {form : Form} (holds : token.Holds form) (allowance : Nat)
    (value : Value) : token.read = .ok value ↔ form.Denotes allowance value := by
  rcases token with ⟨lexeme, start, stop⟩
  cases form with
  | null =>
      have isNull : lexeme = .null := holds
      subst isNull
      exact ⟨fun done => by cases done; exact .null, fun denotes => by cases denotes; rfl⟩
  | boolean b =>
      have isBoolean : lexeme = .boolean b := holds
      subst isBoolean
      exact ⟨fun done => by cases done; exact .boolean, fun denotes => by cases denotes; rfl⟩
  | number numeral =>
      have isNumber : lexeme = .number numeral := holds
      subst isNumber
      simp only [read]
      constructor
      · intro done
        split at done
        case h_1 n inRange => cases done; exact .number inRange
        case h_2 => cases done
      · intro denotes
        cases denotes with
        | number inRange => rw [inRange]
  | text pieces =>
      have isText : lexeme = .closedText pieces := holds
      subst isText
      simp only [read, bind_eq_ok_iff, Spelling.read_closed]
      constructor
      · intro given
        rcases given with ⟨s, denoted, done⟩
        cases done
        exact .text denoted
      · intro denotes
        cases denotes with
        | text denoted => exact ⟨_, denoted, rfl⟩
  | array items => exact holds.elim
  | object members => exact holds.elim

theorem pass_holds {token : Token} {form : Form} (holds : token.Holds form) :
    token.pass = .ok () := by
  rcases token with ⟨lexeme, start, stop⟩
  cases form with
  | null | boolean | number | text =>
      have same : lexeme = _ := holds
      subst same
      rfl
  | array items => exact holds.elim
  | object members => exact holds.elim

/-- A scalar that is read holds a form. -/
theorem holds_of_read {token : Token} {value : Value} (accepted : token.read = .ok value) :
    Exists fun form => token.Holds form := by
  rcases token with ⟨lexeme, start, stop⟩
  cases lexeme with
  | null => exact ⟨.null, rfl⟩
  | boolean b => exact ⟨.boolean b, rfl⟩
  | number numeral => exact ⟨.number numeral, rfl⟩
  | text spelling =>
      rcases spelling with ⟨pieces, ending⟩
      by_cases closed : ending = .closed
      · subst closed
        exact ⟨.text pieces, rfl⟩
      · rcases bind_eq_ok_iff.mp accepted with ⟨s, isRead, _⟩
        exact absurd isRead (Spelling.read_open closed s)
  | finish failure => cases failure <;> cases accepted
  | comma | colon | arrayStart | arrayEnd | objectStart | objectEnd | malformed | stray =>
      cases accepted

theorem holds_of_pass {token : Token} (accepted : token.pass = .ok ()) :
    Exists fun form => token.Holds form := by
  rcases token with ⟨lexeme, start, stop⟩
  cases lexeme with
  | null => exact ⟨.null, rfl⟩
  | boolean b => exact ⟨.boolean b, rfl⟩
  | number numeral => exact ⟨.number numeral, rfl⟩
  | text spelling =>
      rcases spelling with ⟨pieces, ending⟩
      by_cases closed : ending = .closed
      · subst closed
        exact ⟨.text pieces, rfl⟩
      · exact absurd accepted (Spelling.pass_open closed)
  | finish failure => cases failure <;> cases accepted
  | comma | colon | arrayStart | arrayEnd | objectStart | objectEnd | malformed | stray =>
      cases accepted

end Token

namespace Key

theorem colon_holds {key : Key} {pieces : List Piece} (holds : key.Holds pieces) :
    key.colon = .ok () := by
  simp only [colon, holds.2]

/-- Reading a name gives what its pieces denote. -/
theorem read_iff {key : Key} {pieces : List Piece} (holds : key.Holds pieces) (name : String) :
    key.read = .ok name ↔ Piece.denoted? pieces = some name := by
  simp only [read, holds.1, Spelling.read_closed]

theorem pass_holds {key : Key} {pieces : List Piece} (holds : key.Holds pieces) :
    key.pass = .ok () := by
  have named : key.name.pass = .ok () := by
    simp only [Token.pass, holds.1, Spelling.pass_closed]
  rw [pass, named]
  exact colon_holds holds

theorem next_of_colon {key : Key} (accepted : key.colon = .ok ()) : key.next.lexeme = .colon := by
  unfold colon at accepted
  split at accepted
  case h_1 isColon => exact isColon
  case h_2 => cases accepted

/-- A name that breaks is neither read nor passed over together with its colon. -/
theorem read_breaks {key : Key} {name : String} (breaks : key.Breaks)
    (accepted : key.read = .ok name) : key.colon ≠ .ok () := by
  rcases breaks with ⟨spelling, isText, isOpen | noColon⟩
  · simp only [read, isText] at accepted
    exact absurd accepted (Spelling.read_open isOpen name)
  · exact fun followed => noColon (next_of_colon followed)

theorem pass_breaks {key : Key} (breaks : key.Breaks) : key.pass ≠ .ok () := by
  intro accepted
  rcases bind_eq_ok_iff.mp accepted with ⟨passed, isPassed, followed⟩
  rcases breaks with ⟨spelling, isText, isOpen | noColon⟩
  · simp only [Token.pass, isText] at isPassed
    exact Spelling.pass_open isOpen isPassed
  · exact noColon (next_of_colon followed)

end Key

namespace ArrayEnd

theorem pass_breaks {ending : ArrayEnd} (breaks : ending.Breaks) : ending.pass ≠ .ok () := by
  cases ending with
  | closed | broken => exact breaks.elim
  | afterComma | unseparated => exact nofun

theorem read_breaks {ending : ArrayEnd} (breaks : ending.Breaks) : ending.read ≠ .ok () := by
  cases ending with
  | closed | broken => exact breaks.elim
  | afterComma | unseparated => exact nofun

end ArrayEnd

namespace ObjectEnd

theorem pass_breaks {ending : ObjectEnd} (breaks : ending.Breaks) : ending.pass ≠ .ok () := by
  cases ending with
  | closed | broken => exact breaks.elim
  | keyless | unseparated => exact nofun

theorem read_breaks {ending : ObjectEnd} (breaks : ending.Breaks) : ending.read ≠ .ok () := by
  cases ending with
  | closed | broken => exact breaks.elim
  | unseparated => exact nofun
  | keyless comma next =>
      cases comma with
      | false => exact nofun
      | true =>
          simp only [read]
          split <;> exact nofun

end ObjectEnd

namespace Node

mutual

/-- Buffering a node gives what its form denotes. -/
theorem buffer_iff {node : Node} {form : Form} (holds : node.Holds form) (allowance : Nat)
    (value : Value) : node.buffer allowance = .ok value ↔ form.Denotes allowance value := by
  match holds with
  | .leaf scalar => exact Token.read_iff scalar allowance value
  | .array inner =>
      cases allowance with
      | zero => exact ⟨nofun, nofun⟩
      | succ allowance =>
          simp only [buffer, ArrayEnd.read, bind_eq_ok_iff, bufferItems_iff inner]
          constructor
          · intro given
            rcases given with ⟨values, denoteAll, _, _, done⟩
            cases done
            exact .array denoteAll
          · intro denotes
            cases denotes with
            | array denoteAll => exact ⟨_, denoteAll, (), trivial, rfl⟩
  | .object inner =>
      cases allowance with
      | zero => exact ⟨nofun, nofun⟩
      | succ allowance =>
          simp only [buffer, ObjectEnd.read, bind_eq_ok_iff, bufferMembers_iff inner]
          constructor
          · intro given
            rcases given with ⟨values, denoteMembers, _, _, done⟩
            cases done
            exact .object denoteMembers
          · intro denotes
            cases denotes with
            | object denoteMembers => exact ⟨_, denoteMembers, (), trivial, rfl⟩

theorem bufferItems_iff {items : List Node} {forms : List Form} (holds : HoldAll items forms)
    (allowance : Nat) (values : List Value) :
    bufferItems allowance items = .ok values ↔ Form.DenoteAll allowance forms values := by
  match holds with
  | .nil =>
      constructor
      · intro done; cases done; exact .nil
      · intro denoteAll; cases denoteAll; rfl
  | .cons first rest =>
      simp only [bufferItems, bind_eq_ok_iff, buffer_iff first, bufferItems_iff rest]
      constructor
      · intro given
        rcases given with ⟨value, denotes, others, denoteAll, done⟩
        cases done
        exact .cons denotes denoteAll
      · intro denoteAll
        cases denoteAll with
        | cons denotes others => exact ⟨_, denotes, _, others, rfl⟩

theorem bufferMembers_iff {members : List (Key × Node)} {forms : List (List Piece × Form)}
    (holds : HoldMembers members forms) (allowance : Nat) (values : List (String × Value)) :
    bufferMembers allowance members = .ok values ↔
      Form.DenoteMembers allowance forms values := by
  match holds with
  | .nil =>
      constructor
      · intro done; cases done; exact .nil
      · intro denoteMembers; cases denoteMembers; rfl
  | .cons named first rest =>
      simp only [bufferMembers, bind_eq_ok_iff, Key.read_iff named, Key.colon_holds named,
        buffer_iff first, bufferMembers_iff rest]
      constructor
      · intro given
        rcases given with ⟨name, denoted, _, _, value, denotes, others, denoteMembers, done⟩
        cases done
        exact .cons denoted denotes denoteMembers
      · intro denoteMembers
        cases denoteMembers with
        | cons denoted denotes others => exact ⟨_, denoted, (), trivial, _, denotes, _, others, rfl⟩

end

mutual

/-- Passing over asks for nothing but the grammar. -/
theorem pass_holds {node : Node} {form : Form} (holds : node.Holds form) : node.pass = .ok () := by
  match holds with
  | .leaf scalar => exact Token.pass_holds scalar
  | .array inner =>
      rw [pass, passItems_hold inner]
      rfl
  | .object inner =>
      rw [pass, passMembers_hold inner]
      rfl

theorem passItems_hold {items : List Node} {forms : List Form} (holds : HoldAll items forms) :
    passItems items = .ok () := by
  match holds with
  | .nil => rfl
  | .cons first rest =>
      rw [passItems, pass_holds first]
      exact passItems_hold rest

theorem passMembers_hold {members : List (Key × Node)} {forms : List (List Piece × Form)}
    (holds : HoldMembers members forms) : passMembers members = .ok () := by
  match holds with
  | .nil => rfl
  | .cons named first rest =>
      simp only [passMembers, Key.pass_holds named, pass_holds first]
      exact passMembers_hold rest

end

theorem bufferItems_mem {allowance : Nat} {items : List Node} {values : List Value}
    (accepted : bufferItems allowance items = .ok values) {item : Node} (listed : item ∈ items) :
    Exists fun value => item.buffer allowance = .ok value := by
  induction items generalizing values with
  | nil => cases listed
  | cons first items inductionHypothesis =>
      rcases bind_eq_ok_iff.mp accepted with ⟨value, isFirst, after⟩
      rcases bind_eq_ok_iff.mp after with ⟨others, isRest, _⟩
      cases List.mem_cons.mp listed with
      | inl same => exact ⟨value, by rw [same]; exact isFirst⟩
      | inr later => exact inductionHypothesis isRest later

theorem bufferMembers_mem {allowance : Nat} {members : List (Key × Node)}
    {values : List (String × Value)} (accepted : bufferMembers allowance members = .ok values)
    {key : Key} {node : Node} (listed : (key, node) ∈ members) :
    Exists fun name => Exists fun value =>
      key.read = .ok name ∧ key.colon = .ok () ∧ node.buffer allowance = .ok value := by
  induction members generalizing values with
  | nil => cases listed
  | cons first members inductionHypothesis =>
      rcases first with ⟨firstKey, firstNode⟩
      rcases bind_eq_ok_iff.mp accepted with ⟨name, isName, afterName⟩
      rcases bind_eq_ok_iff.mp afterName with ⟨_, isColon, afterColon⟩
      rcases bind_eq_ok_iff.mp afterColon with ⟨value, isValue, afterValue⟩
      rcases bind_eq_ok_iff.mp afterValue with ⟨others, isRest, _⟩
      cases List.mem_cons.mp listed with
      | inl same =>
          cases same
          exact ⟨name, value, isName, isColon, isValue⟩
      | inr later => exact inductionHypothesis isRest later

theorem passItems_mem {items : List Node} (accepted : passItems items = .ok ()) {item : Node}
    (listed : item ∈ items) : item.pass = .ok () := by
  induction items with
  | nil => cases listed
  | cons first items inductionHypothesis =>
      rcases bind_eq_ok_iff.mp accepted with ⟨_, isFirst, isRest⟩
      cases List.mem_cons.mp listed with
      | inl same => rw [same]; exact isFirst
      | inr later => exact inductionHypothesis isRest later

theorem passMembers_mem {members : List (Key × Node)} (accepted : passMembers members = .ok ())
    {key : Key} {node : Node} (listed : (key, node) ∈ members) :
    key.pass = .ok () ∧ node.pass = .ok () := by
  induction members with
  | nil => cases listed
  | cons first members inductionHypothesis =>
      rcases first with ⟨firstKey, firstNode⟩
      rcases bind_eq_ok_iff.mp accepted with ⟨_, isKey, afterKey⟩
      rcases bind_eq_ok_iff.mp afterKey with ⟨_, isNode, isRest⟩
      cases List.mem_cons.mp listed with
      | inl same =>
          cases same
          exact ⟨isKey, isNode⟩
      | inr later => exact inductionHypothesis isRest later

/-- A node that breaks is not buffered. -/
theorem buffer_breaks {node : Node} (breaks : node.Breaks) (allowance : Nat) (value : Value) :
    node.buffer allowance ≠ .ok value := by
  induction breaks generalizing allowance value with
  | leaf never =>
      intro accepted
      rcases Token.holds_of_read accepted with ⟨form, holds⟩
      exact never form holds
  | arrayEnding broken =>
      cases allowance with
      | zero => exact nofun
      | succ allowance =>
          intro accepted
          rcases bind_eq_ok_iff.mp accepted with ⟨values, _, after⟩
          rcases bind_eq_ok_iff.mp after with ⟨_, ended, _⟩
          exact ArrayEnd.read_breaks broken ended
  | item listed _ inductionHypothesis =>
      cases allowance with
      | zero => exact nofun
      | succ allowance =>
          intro accepted
          rcases bind_eq_ok_iff.mp accepted with ⟨values, isItems, _⟩
          rcases bufferItems_mem isItems listed with ⟨value, isItem⟩
          exact inductionHypothesis allowance value isItem
  | objectEnding broken =>
      cases allowance with
      | zero => exact nofun
      | succ allowance =>
          intro accepted
          rcases bind_eq_ok_iff.mp accepted with ⟨values, _, after⟩
          rcases bind_eq_ok_iff.mp after with ⟨_, ended, _⟩
          exact ObjectEnd.read_breaks broken ended
  | key listed broken =>
      cases allowance with
      | zero => exact nofun
      | succ allowance =>
          intro accepted
          rcases bind_eq_ok_iff.mp accepted with ⟨values, isMembers, _⟩
          rcases bufferMembers_mem isMembers listed with ⟨name, value, isName, isColon, _⟩
          exact Key.read_breaks broken isName isColon
  | member listed _ inductionHypothesis =>
      cases allowance with
      | zero => exact nofun
      | succ allowance =>
          intro accepted
          rcases bind_eq_ok_iff.mp accepted with ⟨values, isMembers, _⟩
          rcases bufferMembers_mem isMembers listed with ⟨name, value, _, _, isValue⟩
          exact inductionHypothesis allowance value isValue

/-- A node that breaks is not passed over. -/
theorem pass_breaks {node : Node} (breaks : node.Breaks) : node.pass ≠ .ok () := by
  induction breaks with
  | leaf never =>
      intro accepted
      rcases Token.holds_of_pass accepted with ⟨form, holds⟩
      exact never form holds
  | arrayEnding broken =>
      intro accepted
      rcases bind_eq_ok_iff.mp accepted with ⟨_, _, ended⟩
      exact ArrayEnd.pass_breaks broken ended
  | item listed _ inductionHypothesis =>
      intro accepted
      rcases bind_eq_ok_iff.mp accepted with ⟨_, isItems, _⟩
      exact inductionHypothesis (passItems_mem isItems listed)
  | objectEnding broken =>
      intro accepted
      rcases bind_eq_ok_iff.mp accepted with ⟨_, _, ended⟩
      exact ObjectEnd.pass_breaks broken ended
  | key listed broken =>
      intro accepted
      rcases bind_eq_ok_iff.mp accepted with ⟨_, isMembers, _⟩
      exact Key.pass_breaks broken (passMembers_mem isMembers listed).1
  | member listed _ inductionHypothesis =>
      intro accepted
      rcases bind_eq_ok_iff.mp accepted with ⟨_, isMembers, _⟩
      exact inductionHypothesis (passMembers_mem isMembers listed).2

end Node

/-- A document is decoded completely into what its form denotes. -/
theorem Supply.buffer_iff {supply : Supply} {value : Value} :
    supply.tree.buffer = .ok value ↔
      supply.failure = none ∧ Exists fun form : Form =>
        form.Written supply.bytes ∧ form.Denotes nestingAllowance value :=
  supply.read_tree_iff (fun breaks => Node.buffer_breaks breaks _ _)
    (fun holds => Node.buffer_iff holds _ _)

end Json
end RepoInspector
