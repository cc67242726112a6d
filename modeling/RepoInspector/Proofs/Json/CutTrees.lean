import RepoInspector.Proofs.Json.Cuts
import RepoInspector.Proofs.Json.Growth

namespace RepoInspector
namespace Json

/-!
# Trees that break off

A document that ends too early grows into the tree of the whole document up to
some place, where a value is lacking or a token breaks off, and everything
around that place stays open.
-/

/-- An object ends because the document does. -/
def ObjectEnd.Finishes : ObjectEnd -> Prop
  | .unseparated next | .keyless _ next => next.Finishes
  | .closed _ | .broken => False

mutual

/-- What is left of a node when a document ends at a place in it. -/
inductive Node.Cut (place : Nat) : Node -> Node -> Prop
  /-- Nothing is left, and the end stands where the value is due. -/
  | before {node : Node} {finish : Token} (finishes : finish.Finishes) :
      Cut place node (.leaf finish)
  | leaf {token last : Token} (breaks : token.Breaks place last) :
      Cut place (.leaf token) (.leaf last)
  | array {start close : Token} {items left : List Node} {ending : ArrayEnd}
      (inner : Node.CutItems place items left ending) :
      Cut place (.array start items (.closed close)) (.array start left ending)
  | object {start close : Token} {members left : List (Key × Node)} {ending : ObjectEnd}
      (inner : Node.CutMembers place members left ending) :
      Cut place (.object start members (.closed close)) (.object start left ending)

/-- What is left of items, and how their array then ends. -/
inductive Node.CutItems (place : Nat) : List Node -> List Node -> ArrayEnd -> Prop
  | ends {items : List Node} {finish : Token} (finishes : finish.Finishes) :
      CutItems place items [] (.unseparated finish)
  | shortens {token part finish : Token} {items : List Node}
      (shortens : token.Shortens place part) (finishes : finish.Finishes) :
      CutItems place (.leaf token :: items) [.leaf part] (.unseparated finish)
  | breaks {item left : Node} {items : List Node} (cut : Node.Cut place item left) :
      CutItems place (item :: items) [left] .broken
  | later {item : Node} {items left : List Node} {ending : ArrayEnd}
      (rest : Node.CutItems place items left ending) :
      CutItems place (item :: items) (item :: left) ending

/-- What is left of members, and how their object then ends. -/
inductive Node.CutMembers (place : Nat) :
    List (Key × Node) -> List (Key × Node) -> ObjectEnd -> Prop
  | ends {members : List (Key × Node)} {ending : ObjectEnd} (finishes : ending.Finishes) :
      CutMembers place members [] ending
  | name {key : Key} {node : Node} {members : List (Key × Node)} {last : Token}
      {pieces front : List Piece} (whole : key.name.lexeme = .closedText pieces)
      (broken : last.lexeme = .text ⟨front, .cut none⟩) (isFront : front <+: pieces) :
      CutMembers place ((key, node) :: members) [(⟨last, last⟩, .leaf last)] .broken
  | colon {key : Key} {node : Node} {members : List (Key × Node)} {finish : Token}
      (finishes : finish.Finishes) :
      CutMembers place ((key, node) :: members) [(⟨key.name, finish⟩, .leaf finish)] .broken
  | shortens {key : Key} {token part finish : Token} {members : List (Key × Node)}
      (shortens : token.Shortens place part) (finishes : finish.Finishes) :
      CutMembers place ((key, .leaf token) :: members) [(key, .leaf part)] (.unseparated finish)
  | breaks {key : Key} {node left : Node} {members : List (Key × Node)}
      (cut : Node.Cut place node left) :
      CutMembers place ((key, node) :: members) [(key, left)] .broken
  | later {member : Key × Node} {members left : List (Key × Node)} {ending : ObjectEnd}
      (rest : Node.CutMembers place members left ending) :
      CutMembers place (member :: members) (member :: left) ending

end

/-!
## Cuts at signs and names
-/

/-- A lexeme of one byte, which no cut falls into. -/
def Lexeme.IsSign : Lexeme -> Prop
  | .comma | .colon | .arrayStart | .arrayEnd | .objectStart | .objectEnd => True
  | _ => False

section Tokens

variable {place : Nat} {token : Token} {tokens left : List Token}

theorem Token.Breaks.not_sign {last : Token} (breaks : token.Breaks place last) :
    ¬ token.lexeme.IsSign := by
  cases breaks with
  | keyword isWord =>
      rcases isWord with same | ⟨b, same⟩ <;> rw [same] <;> exact id
  | number unnatural =>
      rcases unnatural with ⟨numeral, same, _⟩
      rw [same]
      exact id
  | text whole => rw [whole]; exact id

theorem Token.Shortens.not_sign {part : Token} (shortens : token.Shortens place part) :
    ¬ token.lexeme.IsSign := by
  cases shortens with
  | intro whole => rw [whole]; exact id

theorem CutTokens.not_nil : ¬ CutTokens place [] left := nofun

/-- A cut of tokens that begin with a sign falls in front of it or behind it. -/
theorem CutTokens.of_sign (cut : CutTokens place (token :: tokens) left) {lexeme : Lexeme}
    (same : token.lexeme = lexeme) (isSign : lexeme.IsSign) :
    (Exists fun finish => left = [finish] ∧ finish.Finishes) ∨
      Exists fun rest => left = token :: rest ∧ CutTokens place tokens rest := by
  cases cut with
  | ends finishes => exact .inl ⟨_, rfl, finishes⟩
  | breaks breaks => exact absurd (same ▸ isSign) breaks.not_sign
  | shortens shortens => exact absurd (same ▸ isSign) shortens.not_sign
  | later rest => exact .inr ⟨_, rfl, rest⟩

/-- A cut of a sign alone falls in front of it. -/
theorem CutTokens.of_lastSign (cut : CutTokens place [token] left) {lexeme : Lexeme}
    (same : token.lexeme = lexeme) (isSign : lexeme.IsSign) :
    Exists fun finish => left = [finish] ∧ finish.Finishes := by
  rcases cut.of_sign same isSign with ended | ⟨rest, _, behind⟩
  · exact ended
  · exact absurd behind CutTokens.not_nil

/-- A cut of tokens that begin with a text may also fall into it. -/
theorem CutTokens.of_text {pieces : List Piece} (cut : CutTokens place (token :: tokens) left)
    (isText : token.lexeme = .closedText pieces) :
    (Exists fun finish => left = [finish] ∧ finish.Finishes) ∨
    (Exists fun last => Exists fun front => left = [last] ∧
      last.lexeme = .text ⟨front, .cut none⟩ ∧ front <+: pieces) ∨
      Exists fun rest => left = token :: rest ∧ CutTokens place tokens rest := by
  cases cut with
  | ends finishes => exact .inl ⟨_, rfl, finishes⟩
  | later rest => exact .inr (.inr ⟨_, rfl, rest⟩)
  | breaks breaks =>
      cases breaks with
      | keyword isWord =>
          rw [isText] at isWord
          rcases isWord with impossible | ⟨b, impossible⟩ <;> cases impossible
      | number unnatural =>
          rcases unnatural with ⟨numeral, isNumber, _⟩
          cases isText.symm.trans isNumber
      | text whole broken isFront =>
          cases isText.symm.trans whole
          exact .inr (.inl ⟨_, _, rfl, broken, isFront⟩)
  | shortens shortens =>
      cases shortens with
      | intro isNumber => cases isText.symm.trans isNumber

/-- A cut of a value does not begin with the end of an array, and with that of the
document only where nothing is left. -/
theorem CutTokens.of_begins (cut : CutTokens place (token :: tokens) left)
    (begins : token.lexeme.BeginsValue) :
    Exists fun head => Exists fun rest => left = head :: rest ∧ head.lexeme ≠ .arrayEnd ∧
      (rest = [] ∧ head.Finishes ∨ forall reason, head.lexeme ≠ .finish reason) := by
  cases cut with
  | ends finishes =>
      exact ⟨_, [], rfl, fun same => (nomatch finishes.symm.trans same), .inl ⟨rfl, finishes⟩⟩
  | breaks breaks =>
      cases breaks with
      | keyword _ broken | number _ _ broken | text _ broken =>
          refine ⟨_, [], rfl, ?_, .inr fun reason => ?_⟩ <;> rw [broken] <;> exact nofun
  | shortens shortens =>
      cases shortens with
      | intro _ _ isNumber =>
          refine ⟨_, _, rfl, ?_, .inr fun reason => ?_⟩ <;> rw [isNumber] <;> exact nofun
  | later =>
      refine ⟨token, _, rfl, ?_, .inr fun reason => ?_⟩ <;>
        exact fun same => by rw [same] at begins; exact begins

end Tokens

/-!
## Growing from what is left
-/

namespace Reading

/-- A reading that ends in a value: it breaks off, or it ends right behind a number
that is shorter. -/
inductive CutAt (place : Nat) (node : Node) (frames : List Frame) : Reading -> Prop
  | breaks {left : Node} (cut : node.Cut place left) :
      CutAt place node frames (breakOff left frames)
  | shortens {token part finish : Token} (isNumber : node = .leaf token)
      (shortens : token.Shortens place part) (finishes : finish.Finishes) :
      CutAt place node frames (step finish (deliver (.leaf part) frames))

/-- A reading that ends in an array, behind some of its items. -/
def CutArray (place : Nat) (items : List Node) (start : Token) (before : List Node)
    (frames : List Frame) (reading : Reading) : Prop :=
  Exists fun left => Exists fun ending => Node.CutItems place items left ending ∧
    reading = breakOff (.array start (before.reverse ++ left) ending) frames

/-- A reading that ends in an object, behind some of its members. -/
def CutObject (place : Nat) (members : List (Key × Node)) (start : Token)
    (before : List (Key × Node)) (frames : List Frame) (reading : Reading) : Prop :=
  Exists fun left => Exists fun ending => Node.CutMembers place members left ending ∧
    reading = breakOff (.object start (before.reverse ++ left) ending) frames

variable {place : Nat} {start : Token} {frames : List Frame} {reading : Reading}

theorem CutArray.ends {items before : List Node} {finish : Token} (finishes : finish.Finishes) :
    CutArray place items start before frames (step finish (.item start before frames)) := by
  have isFinish : finish.lexeme = .finish none := finishes
  refine ⟨[], .unseparated finish, .ends finishes, ?_⟩
  simp only [step, isFinish, List.append_nil]

/-- The document ends where the first item of an array is due. -/
theorem CutArray.first {items : List Node} {finish : Token} (finishes : finish.Finishes) :
    CutArray place items start [] frames (step finish (.firstItem start frames)) := by
  have isFinish : finish.lexeme = .finish none := finishes
  refine ⟨[], .unseparated finish, .ends finishes, ?_⟩
  simp only [step, isFinish, List.reverse_nil, List.append_nil]

/-- A cut behind the start of an array is one of the array. -/
theorem CutArray.whole {items : List Node} {close : Token}
    (cut : CutArray place items start [] frames reading) :
    CutAt place (.array start items (.closed close)) frames reading := by
  rcases cut with ⟨left, ending, inner, rfl⟩
  exact .breaks (.array inner)

theorem CutArray.later {item : Node} {items before : List Node}
    (cut : CutArray place items start (item :: before) frames reading) :
    CutArray place (item :: items) start before frames reading := by
  rcases cut with ⟨left, ending, inner, rfl⟩
  refine ⟨item :: left, ending, .later inner, ?_⟩
  rw [List.reverse_cons, List.append_assoc, List.singleton_append]

/-- A cut of an item is one of its array. -/
theorem CutAt.array {item : Node} {items before : List Node}
    (cut : CutAt place item (.array start before :: frames) reading) :
    CutArray place (item :: items) start before frames reading := by
  cases cut with
  | @breaks left cut =>
      refine ⟨[left], .broken, .breaks cut, ?_⟩
      rw [← List.reverse_cons]
      rfl
  | @shortens token part finish isNumber shortens finishes =>
      subst isNumber
      have isFinish : finish.lexeme = .finish none := finishes
      refine ⟨[.leaf part], .unseparated finish, .shortens shortens finishes, ?_⟩
      rw [← List.reverse_cons]
      simp only [deliver, step, isFinish]

theorem CutObject.ends {members before : List (Key × Node)} {finish : Token}
    (finishes : finish.Finishes) :
    CutObject place members start before frames (step finish (.member start before frames)) := by
  have isFinish : finish.lexeme = .finish none := finishes
  refine ⟨[], .unseparated finish, .ends finishes, ?_⟩
  simp only [step, isFinish, List.append_nil]

theorem CutObject.keyless {members before : List (Key × Node)} {finish : Token} {comma : Bool}
    (finishes : finish.Finishes) :
    CutObject place members start before frames
      (step finish (.keyOrEnd start before comma frames)) := by
  have isFinish : finish.lexeme = .finish none := finishes
  refine ⟨[], .keyless comma finish, .ends finishes, ?_⟩
  simp only [step, takeKey, isFinish, List.append_nil]

/-- A cut behind the start of an object is one of the object. -/
theorem CutObject.whole {members : List (Key × Node)} {close : Token}
    (cut : CutObject place members start [] frames reading) :
    CutAt place (.object start members (.closed close)) frames reading := by
  rcases cut with ⟨left, ending, inner, rfl⟩
  exact .breaks (.object inner)

theorem CutObject.later {member : Key × Node} {members before : List (Key × Node)}
    (cut : CutObject place members start (member :: before) frames reading) :
    CutObject place (member :: members) start before frames reading := by
  rcases cut with ⟨left, ending, inner, rfl⟩
  refine ⟨member :: left, ending, .later inner, ?_⟩
  rw [List.reverse_cons, List.append_assoc, List.singleton_append]

/-- A cut of a member's value is one of its object. -/
theorem CutAt.object {key : Key} {node : Node} {members before : List (Key × Node)}
    (cut : CutAt place node (.object start before key :: frames) reading) :
    CutObject place ((key, node) :: members) start before frames reading := by
  cases cut with
  | @breaks left cut =>
      refine ⟨[(key, left)], .broken, .breaks cut, ?_⟩
      rw [← List.reverse_cons]
      rfl
  | @shortens token part finish isNumber shortens finishes =>
      subst isNumber
      have isFinish : finish.lexeme = .finish none := finishes
      refine ⟨[(key, .leaf part)], .unseparated finish, .shortens shortens finishes, ?_⟩
      rw [← List.reverse_cons]
      simp only [deliver, step, isFinish]

/-- A token that breaks off ends the reading. -/
theorem step_breaks {token last : Token} (breaks : token.Breaks place last)
    (frames : List Frame) : step last (.value frames) = breakOff (.leaf last) frames := by
  cases breaks with
  | keyword _ broken | number _ _ broken => simp only [step, takeValue, broken]
  | text _ broken => simp only [step, takeValue, broken, reduceCtorEq, if_false]

theorem step_finish {finish : Token} (finishes : finish.Finishes) (frames : List Frame) :
    step finish (.value frames) = breakOff (.leaf finish) frames := by
  have isFinish : finish.lexeme = .finish none := finishes
  simp only [step, takeValue, isFinish]

/-- The document ends where a value is due. -/
theorem CutAt.finish {node : Node} {finish : Token} (finishes : finish.Finishes) :
    CutAt place node frames (grow [finish] (.value frames)) := by
  rw [grow_cons, grow_nil, step_finish finishes]
  exact .breaks (.before finishes)

/-- A cut of the first item of an array. -/
theorem cut_firstItem {node : Node} {tokens left : List Token} {items : List Node}
    (spans : node.Spans tokens) (cut : CutTokens place tokens left)
    (inner : forall frames, CutAt place node frames (grow left (.value frames))) :
    CutArray place (node :: items) start [] frames (grow left (.firstItem start frames)) := by
  rcases spans.begins with ⟨token, rest, rfl, begins⟩
  rcases cut.of_begins begins with ⟨head, others, rfl, notEnd, ⟨rfl, finishes⟩ | notFinish⟩
  · exact .first finishes
  · rw [grow_cons, step_firstItem notEnd notFinish, ← grow_cons]
    exact (inner _).array

/-- A cut of a later item of an array. -/
theorem cut_nextItem {node : Node} {tokens left : List Token} {items before : List Node}
    (spans : node.Spans tokens) (cut : CutTokens place tokens left)
    (inner : forall frames, CutAt place node frames (grow left (.value frames))) :
    CutArray place (node :: items) start before frames
      (grow left (.nextItem start before frames)) := by
  rcases spans.begins with ⟨token, rest, rfl, begins⟩
  rcases cut.of_begins begins with ⟨head, others, rfl, notEnd, _⟩
  rw [grow_cons, step_nextItem notEnd, ← grow_cons]
  exact (inner _).array

/-- A cut of a name, or between it and its colon, or behind that. -/
theorem cut_key {key : Key} {pieces : List Piece} (named : key.Holds pieces)
    {node : Node} {members before : List (Key × Node)} {comma : Bool} {tokens left : List Token}
    (cut : CutTokens place (key.name :: key.next :: tokens) left)
    (behind : forall left, CutTokens place tokens left ->
      CutObject place ((key, node) :: members) start before frames
        (grow left (.value (.object start before key :: frames)))) :
    CutObject place ((key, node) :: members) start before frames
      (grow left (.keyOrEnd start before comma frames)) := by
  rcases cut.of_text named.1 with ⟨finish, rfl, finishes⟩ |
    ⟨last, front, rfl, broken, isFront⟩ | ⟨rest, rfl, cutBehind⟩
  · exact .keyless finishes
  · refine ⟨[(⟨last, last⟩, .leaf last)], .broken, .name named.1 broken isFront, ?_⟩
    rw [grow_cons, grow_nil, ← List.reverse_cons]
    simp only [step, takeKey, broken, reduceCtorEq, if_false]
  · have isName : step key.name (.keyOrEnd start before comma frames) =
        .colon start before key.name frames := by
      simp only [step, takeKey, named.1, if_true]
    rcases cutBehind.of_sign named.2 trivial with ⟨finish, rfl, finishes⟩ | ⟨rest, rfl, cutValue⟩
    · have isFinish : finish.lexeme = .finish none := finishes
      refine ⟨[(⟨key.name, finish⟩, .leaf finish)], .broken, .colon finishes, ?_⟩
      rw [grow_cons, isName, grow_cons, grow_nil, ← List.reverse_cons]
      simp only [step, isFinish]
    · rw [grow_key named]
      exact behind rest cutValue

mutual

/-- What is left of the tokens of a node grows into what is left of the node. -/
theorem cut_spans {node : Node} {tokens : List Token} (spans : node.Spans tokens)
    {left : List Token} (cut : CutTokens place tokens left) (frames : List Frame) :
    CutAt place node frames (grow left (.value frames)) := by
  match spans with
  | .leaf scalar =>
      cases cut with
      | ends finishes => exact .finish finishes
      | breaks breaks =>
          rw [grow_cons, grow_nil, step_breaks breaks]
          exact .breaks (.leaf breaks)
      | @shortens token part finish _ shortens finishes =>
          have delivered : step part (.value frames) = deliver (.leaf part) frames := by
            cases shortens with
            | intro _ _ isNumber => simp only [step, takeValue, isNumber]
          rw [grow_cons, grow_cons, grow_nil, delivered]
          exact .shortens rfl shortens finishes
      | later rest => exact absurd rest CutTokens.not_nil
  | .emptyArray opens closes =>
      rcases cut.of_sign opens trivial with ⟨finish, rfl, finishes⟩ | ⟨rest, rfl, cutClose⟩
      · exact .finish finishes
      · rcases cutClose.of_lastSign closes trivial with ⟨finish, rfl, finishes⟩
        rw [grow_cons, step_arrayStart opens, grow_cons, grow_nil]
        exact (CutArray.first finishes).whole
  | .array opens head rest closes =>
      rcases cut.of_sign opens trivial with ⟨finish, rfl, finishes⟩ | ⟨left, rfl, cutInner⟩
      · exact .finish finishes
      · rw [grow_cons, step_arrayStart opens]
        rcases cutInner.append with cutHead | ⟨left, rfl, cutBehind⟩
        · exact (cut_firstItem head cutHead fun frames => cut_spans head cutHead frames).whole
        · rw [grow_append, grow_firstItem head, grow_spans head]
          exact (cut_spanItems rest closes cutBehind _ _ _).later.whole
  | .emptyObject opens closes =>
      rcases cut.of_sign opens trivial with ⟨finish, rfl, finishes⟩ | ⟨rest, rfl, cutClose⟩
      · exact .finish finishes
      · rcases cutClose.of_lastSign closes trivial with ⟨finish, rfl, finishes⟩
        rw [grow_cons, step_objectStart opens, grow_cons, grow_nil]
        exact (CutObject.keyless finishes).whole
  | .object opens named head rest closes =>
      rcases cut.of_sign opens trivial with ⟨finish, rfl, finishes⟩ | ⟨left, rfl, cutInner⟩
      · exact .finish finishes
      · rw [grow_cons, step_objectStart opens]
        refine (cut_key named cutInner fun left cutValue => ?_).whole
        rcases cutValue.append with cutHead | ⟨left, rfl, cutBehind⟩
        · exact (cut_spans head cutHead _).object
        · rw [grow_append, grow_spans head]
          exact (cut_spanMembers rest closes cutBehind _ _ _).later

/-- What is left behind the items of an array, or behind some of them. -/
theorem cut_spanItems {nodes : List Node} {tokens : List Token}
    (spans : Node.SpanItems nodes tokens) {close : Token} (closes : close.lexeme = .arrayEnd)
    {left : List Token} (cut : CutTokens place (tokens ++ [close]) left) (start : Token)
    (before : List Node) (frames : List Frame) :
    CutArray place nodes start before frames (grow left (.item start before frames)) := by
  match spans with
  | .nil =>
      rcases cut.of_lastSign closes trivial with ⟨finish, rfl, finishes⟩
      exact .ends finishes
  | .cons isComma head rest =>
      rw [List.cons_append, List.append_assoc] at cut
      rcases cut.of_sign isComma trivial with ⟨finish, rfl, finishes⟩ | ⟨left, rfl, cutInner⟩
      · exact .ends finishes
      · rw [grow_cons, step_itemComma isComma]
        rcases cutInner.append with cutHead | ⟨left, rfl, cutBehind⟩
        · exact cut_nextItem head cutHead fun frames => cut_spans head cutHead frames
        · rw [grow_append, grow_nextItem head, grow_spans head]
          exact (cut_spanItems rest closes cutBehind _ _ _).later

theorem cut_spanMembers {nodes : List (Key × Node)} {tokens : List Token}
    (spans : Node.SpanMembers nodes tokens) {close : Token} (closes : close.lexeme = .objectEnd)
    {left : List Token} (cut : CutTokens place (tokens ++ [close]) left) (start : Token)
    (before : List (Key × Node)) (frames : List Frame) :
    CutObject place nodes start before frames (grow left (.member start before frames)) := by
  match spans with
  | .nil =>
      rcases cut.of_lastSign closes trivial with ⟨finish, rfl, finishes⟩
      exact .ends finishes
  | .cons isComma named head rest =>
      simp only [List.cons_append, List.append_assoc] at cut
      rcases cut.of_sign isComma trivial with ⟨finish, rfl, finishes⟩ | ⟨left, rfl, cutInner⟩
      · exact .ends finishes
      · rw [grow_cons, step_memberComma isComma]
        refine cut_key named cutInner fun left cutValue => ?_
        rcases cutValue.append with cutHead | ⟨left, rfl, cutBehind⟩
        · exact (cut_spans head cutHead _).object
        · rw [grow_append, grow_spans head]
          exact (cut_spanMembers rest closes cutBehind _ _ _).later

end

end Reading

/-- A document that holds an object and does not end in blanks grows, wherever it
is cut off, into what is left of its tree. -/
theorem Supply.tree_of_cut {bytes : List UInt8} {forms : List (List Piece × Form)}
    (written : (Form.object forms).Written bytes)
    (unpadded : ∀ byte ∈ bytes.getLast?, isBlankByte byte = false) {count : Nat}
    (less : count < bytes.length) :
    Exists fun left : Node => (Supply.tree ⟨bytes, none⟩).root.Cut count left ∧
      Supply.tree ⟨bytes.take count, none⟩ = ⟨left, none⟩ := by
  rcases Supply.placed_of_written ⟨bytes, none⟩ rfl written with
    ⟨tokens, finish, placed, spelled, isTokens, _⟩
  rcases Form.spanned _ spelled with ⟨root, holds, spans⟩
  have read : Reading.grow (Supply.tokens ⟨bytes, none⟩) (.value []) =
      .done root (some finish) := by
    rw [isTokens, Reading.grow_append, Reading.grow_spans spans]
    rfl
  rw [Supply.tree_of_done read]
  have separated : Separated (tokens.map Token.lexeme) := by
    have closed := (Form.object forms).separated_lexemes [] trivial trivial
    rwa [List.append_nil, ← spelled] at closed
  have cut := placed.cut separated less unpadded
  have length : (bytes.take count).length = 0 + count := by
    rw [List.length_take, Nat.min_eq_left (Nat.le_of_lt less), Nat.zero_add]
  have isLeft : Supply.tokens ⟨bytes.take count, none⟩ =
      Token.scan (0 + count) none 0 (bytes.take count) := by
    rw [Supply.tokens, length]
  rw [← isLeft, Nat.zero_add] at cut
  have grown := Reading.cut_spans spans cut []
  generalize isReading : Reading.grow _ _ = reading at grown
  cases grown with
  | @breaks left cut => exact ⟨left, cut, Supply.tree_of_done isReading⟩
  | shortens isNumber =>
      cases isNumber
      cases holds with
      | leaf scalar => exact scalar.elim

end Json
end RepoInspector
