import RepoInspector.Proofs.Json.Form

namespace RepoInspector
namespace Json

/-!
# The tokens that a node is made of

A whole node is made of its tokens in order.  Between a form and the node that
grows from it this is the middle: tokens that spell a form make a node that
holds it, and the tokens of a node deliver that node, whatever is open around
it.
-/

namespace Reading

/-- Take tokens one after the other. -/
def grow (tokens : List Token) (reading : Reading) : Reading :=
  tokens.foldl (fun reading token => step token reading) reading

@[simp] theorem grow_nil (reading : Reading) : grow [] reading = reading := rfl

@[simp] theorem grow_cons (token : Token) (tokens : List Token) (reading : Reading) :
    grow (token :: tokens) reading = grow tokens (step token reading) := rfl

theorem grow_append (first second : List Token) (reading : Reading) :
    grow (first ++ second) reading = grow second (grow first reading) :=
  List.foldl_append

/-- Where the first item of an array is due, a token that does not end the
array is read as any other value. -/
theorem step_firstItem {token : Token} (notEnd : token.lexeme ≠ .arrayEnd)
    (notFinish : forall reason, token.lexeme ≠ .finish reason) (start : Token)
    (frames : List Frame) :
    step token (.firstItem start frames) = step token (.value (.array start [] :: frames)) := by
  rcases token with ⟨lexeme, start, stop⟩
  cases lexeme with
  | arrayEnd => exact absurd rfl notEnd
  | finish reason => exact absurd rfl (notFinish reason)
  | comma | colon | arrayStart | objectStart | objectEnd | null | boolean | number | text
  | malformed | stray => rfl

theorem step_nextItem {token : Token} (notEnd : token.lexeme ≠ .arrayEnd) (start : Token)
    (items : List Node) (frames : List Frame) :
    step token (.nextItem start items frames) =
      step token (.value (.array start items :: frames)) := by
  rcases token with ⟨lexeme, start, stop⟩
  cases lexeme with
  | arrayEnd => exact absurd rfl notEnd
  | comma | colon | arrayStart | objectStart | objectEnd | null | boolean | number | text
  | malformed | stray | finish => rfl

end Reading

/-- Whether a lexeme can begin a value. -/
def Lexeme.BeginsValue : Lexeme -> Prop
  | .arrayStart | .objectStart | .null | .boolean _ | .number _ | .text _ => True
  | _ => False

mutual

/-- A whole node and its tokens. -/
inductive Node.Spans : Node -> List Token -> Prop
  | leaf {token : Token} {form : Form} (scalar : token.Holds form) : Spans (.leaf token) [token]
  | emptyArray {start close : Token} (opens : start.lexeme = .arrayStart)
      (closes : close.lexeme = .arrayEnd) : Spans (.array start [] (.closed close)) [start, close]
  | array {start close : Token} {item : Node} {items : List Node} {first later : List Token}
      (opens : start.lexeme = .arrayStart) (head : Node.Spans item first)
      (rest : Node.SpanItems items later) (closes : close.lexeme = .arrayEnd) :
      Spans (.array start (item :: items) (.closed close)) (start :: (first ++ (later ++ [close])))
  | emptyObject {start close : Token} (opens : start.lexeme = .objectStart)
      (closes : close.lexeme = .objectEnd) :
      Spans (.object start [] (.closed close)) [start, close]
  | object {start close : Token} {key : Key} {pieces : List Piece} {node : Node}
      {members : List (Key × Node)} {first later : List Token}
      (opens : start.lexeme = .objectStart) (named : key.Holds pieces)
      (head : Node.Spans node first) (rest : Node.SpanMembers members later)
      (closes : close.lexeme = .objectEnd) :
      Spans (.object start ((key, node) :: members) (.closed close))
        (start :: key.name :: key.next :: (first ++ (later ++ [close])))

/-- Items and their tokens, with a comma before each of them. -/
inductive Node.SpanItems : List Node -> List Token -> Prop
  | nil : SpanItems [] []
  | cons {comma : Token} {item : Node} {items : List Node} {first later : List Token}
      (isComma : comma.lexeme = .comma) (head : Node.Spans item first)
      (rest : Node.SpanItems items later) :
      SpanItems (item :: items) (comma :: (first ++ later))

/-- Members and their tokens, with a comma before each of them. -/
inductive Node.SpanMembers : List (Key × Node) -> List Token -> Prop
  | nil : SpanMembers [] []
  | cons {comma : Token} {key : Key} {pieces : List Piece} {node : Node}
      {members : List (Key × Node)} {first later : List Token} (isComma : comma.lexeme = .comma)
      (named : key.Holds pieces) (head : Node.Spans node first)
      (rest : Node.SpanMembers members later) :
      SpanMembers ((key, node) :: members)
        (comma :: key.name :: key.next :: (first ++ later))

end

/-- The tokens of a node begin a value. -/
theorem Node.Spans.begins {node : Node} {tokens : List Token} (spans : node.Spans tokens) :
    Exists fun token => Exists fun rest =>
      tokens = token :: rest ∧ token.lexeme.BeginsValue := by
  cases spans with
  | @leaf token form scalar =>
      refine ⟨token, [], rfl, ?_⟩
      cases form with
      | null | boolean | number | text =>
          have same : token.lexeme = _ := scalar
          rw [same]
          trivial
      | array | object => exact scalar.elim
  | emptyArray opens | array opens | emptyObject opens | object opens =>
      exact ⟨_, _, rfl, by rw [opens]; trivial⟩

/-!
## Tokens that spell a form
-/

/-- Tokens that spell something between brackets. -/
theorem spelled_between {tokens : List Token} {opening closing : Lexeme} {inner : List Lexeme}
    (spelled : tokens.map Token.lexeme = opening :: (inner ++ [closing])) :
    Exists fun start : Token => Exists fun between : List Token => Exists fun close : Token =>
      tokens = start :: (between ++ [close]) ∧ start.lexeme = opening ∧
        between.map Token.lexeme = inner ∧ close.lexeme = closing := by
  rcases List.map_eq_cons_iff.mp spelled with ⟨start, rest, rfl, isStart, spelledRest⟩
  rcases List.map_eq_append_iff.mp spelledRest with ⟨between, last, rfl, spelledInner, spelledLast⟩
  rcases List.map_eq_cons_iff.mp spelledLast with ⟨close, none_left, rfl, isClose, empty⟩
  have noneLeft := List.map_eq_nil_iff.mp empty
  rw [noneLeft]
  exact ⟨start, between, close, rfl, isStart, spelledInner, isClose⟩

/-- A scalar is spelled by one token. -/
theorem Form.scalar_spanned {form : Form} {tokens : List Token} {lexeme : Lexeme}
    (spelled : tokens.map Token.lexeme = [lexeme])
    (holds : forall start stop : Nat, Token.Holds ⟨lexeme, start, stop⟩ form) :
    Exists fun node : Node => node.Holds form ∧ node.Spans tokens := by
  rcases List.map_eq_cons_iff.mp spelled with ⟨token, others, rfl, rfl, empty⟩
  rw [List.map_eq_nil_iff.mp empty]
  have scalar := holds token.start token.stop
  exact ⟨.leaf token, .leaf scalar, .leaf scalar⟩

mutual

/-- Tokens that spell a form make a node that holds it. -/
theorem Form.spanned (form : Form) {tokens : List Token}
    (spelled : tokens.map Token.lexeme = form.lexemes) :
    Exists fun node : Node => node.Holds form ∧ node.Spans tokens := by
  match form with
  | .null => exact scalar_spanned spelled fun _ _ => rfl
  | .boolean b => exact scalar_spanned spelled fun _ _ => rfl
  | .number numeral => exact scalar_spanned spelled fun _ _ => rfl
  | .text pieces => exact scalar_spanned spelled fun _ _ => rfl
  | .array [] =>
      rcases spelled_between spelled with ⟨start, between, close, rfl, opens, none_left, closes⟩
      rw [List.map_eq_nil_iff.mp none_left]
      exact ⟨_, .array .nil, .emptyArray opens closes⟩
  | .array (item :: items) =>
      rcases spelled_between spelled with ⟨start, between, close, rfl, opens, inner, closes⟩
      rcases List.map_eq_append_iff.mp inner with ⟨first, later, rfl, spelledFirst, spelledLater⟩
      rcases Form.spanned item spelledFirst with ⟨node, holds, spans⟩
      rcases Form.spannedItems items spelledLater with ⟨nodes, holdAll, spanItems⟩
      refine ⟨.array start (node :: nodes) (.closed close), .array (.cons holds holdAll), ?_⟩
      rw [List.append_assoc]
      exact .array opens spans spanItems closes
  | .object [] =>
      rcases spelled_between spelled with ⟨start, between, close, rfl, opens, none_left, closes⟩
      rw [List.map_eq_nil_iff.mp none_left]
      exact ⟨_, .object .nil, .emptyObject opens closes⟩
  | .object ((pieces, form) :: members) =>
      rcases spelled_between spelled with ⟨start, between, close, rfl, opens, inner, closes⟩
      rcases List.map_eq_cons_iff.mp inner with ⟨name, rest, rfl, isName, spelledRest⟩
      rcases List.map_eq_cons_iff.mp spelledRest with ⟨colon, rest, rfl, isColon, spelledBehind⟩
      rcases List.map_eq_append_iff.mp spelledBehind with
        ⟨first, later, rfl, spelledFirst, spelledLater⟩
      rcases Form.spanned form spelledFirst with ⟨node, holds, spans⟩
      rcases Form.spannedMembers members spelledLater with ⟨nodes, holdMembers, spanMembers⟩
      have named : Key.Holds ⟨name, colon⟩ pieces := ⟨isName, isColon⟩
      refine ⟨.object start ((⟨name, colon⟩, node) :: nodes) (.closed close),
        .object (.cons named holds holdMembers), ?_⟩
      rw [List.cons_append, List.cons_append, List.append_assoc]
      exact .object opens named spans spanMembers closes

theorem Form.spannedItems (forms : List Form) {tokens : List Token}
    (spelled : tokens.map Token.lexeme = Form.laterItemLexemes forms) :
    Exists fun nodes : List Node => Node.HoldAll nodes forms ∧ Node.SpanItems nodes tokens := by
  match forms with
  | [] =>
      rw [List.map_eq_nil_iff.mp spelled]
      exact ⟨[], .nil, .nil⟩
  | form :: forms =>
      rcases List.map_eq_cons_iff.mp spelled with ⟨comma, rest, rfl, isComma, spelledRest⟩
      rcases List.map_eq_append_iff.mp spelledRest with
        ⟨first, later, rfl, spelledFirst, spelledLater⟩
      rcases Form.spanned form spelledFirst with ⟨node, holds, spans⟩
      rcases Form.spannedItems forms spelledLater with ⟨nodes, holdAll, spanItems⟩
      exact ⟨node :: nodes, .cons holds holdAll, .cons isComma spans spanItems⟩

theorem Form.spannedMembers (forms : List (List Piece × Form)) {tokens : List Token}
    (spelled : tokens.map Token.lexeme = Form.laterMemberLexemes forms) :
    Exists fun nodes : List (Key × Node) =>
      Node.HoldMembers nodes forms ∧ Node.SpanMembers nodes tokens := by
  match forms with
  | [] =>
      rw [List.map_eq_nil_iff.mp spelled]
      exact ⟨[], .nil, .nil⟩
  | (pieces, form) :: forms =>
      rcases List.map_eq_cons_iff.mp spelled with ⟨comma, rest, rfl, isComma, spelledRest⟩
      rcases List.map_eq_cons_iff.mp spelledRest with ⟨name, rest, rfl, isName, spelledRest⟩
      rcases List.map_eq_cons_iff.mp spelledRest with ⟨colon, rest, rfl, isColon, spelledRest⟩
      rcases List.map_eq_append_iff.mp spelledRest with
        ⟨first, later, rfl, spelledFirst, spelledLater⟩
      rcases Form.spanned form spelledFirst with ⟨node, holds, spans⟩
      rcases Form.spannedMembers forms spelledLater with ⟨nodes, holdMembers, spanMembers⟩
      have named : Key.Holds ⟨name, colon⟩ pieces := ⟨isName, isColon⟩
      exact ⟨(⟨name, colon⟩, node) :: nodes, .cons named holds holdMembers,
        .cons isComma named spans spanMembers⟩

end

/-!
## Tokens of a node
-/

namespace Reading

/-- A scalar is delivered as a leaf. -/
theorem step_scalar {token : Token} {form : Form} (scalar : token.Holds form)
    (frames : List Frame) : step token (.value frames) = deliver (.leaf token) frames := by
  cases form with
  | null | boolean | number =>
      have same : token.lexeme = _ := scalar
      simp only [step, takeValue, same]
  | text pieces =>
      have same : token.lexeme = _ := scalar
      simp only [step, takeValue, same, if_true]
  | array | object => exact scalar.elim

theorem step_arrayStart {start : Token} (opens : start.lexeme = .arrayStart)
    (frames : List Frame) : step start (.value frames) = .firstItem start frames := by
  simp only [step, takeValue, opens]

theorem step_objectStart {start : Token} (opens : start.lexeme = .objectStart)
    (frames : List Frame) : step start (.value frames) = .keyOrEnd start [] false frames := by
  simp only [step, takeValue, opens]

theorem step_arrayEnd {close : Token} (closes : close.lexeme = .arrayEnd) (start : Token)
    (items : List Node) (frames : List Frame) :
    step close (.item start items frames) =
      deliver (.array start items.reverse (.closed close)) frames := by
  simp only [step, closes]

theorem step_objectEnd {close : Token} (closes : close.lexeme = .objectEnd) (start : Token)
    (members : List (Key × Node)) (frames : List Frame) :
    step close (.member start members frames) =
      deliver (.object start members.reverse (.closed close)) frames := by
  simp only [step, closes]

theorem step_itemComma {comma : Token} (isComma : comma.lexeme = .comma) (start : Token)
    (items : List Node) (frames : List Frame) :
    step comma (.item start items frames) = .nextItem start items frames := by
  simp only [step, isComma]

theorem step_memberComma {comma : Token} (isComma : comma.lexeme = .comma) (start : Token)
    (members : List (Key × Node)) (frames : List Frame) :
    step comma (.member start members frames) = .keyOrEnd start members true frames := by
  simp only [step, isComma]

/-- A name and its colon lead to the value of a member. -/
theorem grow_key {key : Key} {pieces : List Piece} (named : key.Holds pieces) (start : Token)
    (members : List (Key × Node)) (comma : Bool) (frames : List Frame) (tokens : List Token) :
    grow (key.name :: key.next :: tokens) (.keyOrEnd start members comma frames) =
      grow tokens (.value (.object start members key :: frames)) := by
  rcases named with ⟨isName, isColon⟩
  simp only [grow_cons, step, takeKey, isName, isColon, if_true]

/-- The tokens of a node are read alike where the first item of an array is due. -/
theorem grow_firstItem {node : Node} {tokens : List Token} (spans : node.Spans tokens)
    (start : Token) (frames : List Frame) :
    grow tokens (.firstItem start frames) =
      grow tokens (.value (.array start [] :: frames)) := by
  rcases spans.begins with ⟨token, rest, rfl, begins⟩
  rw [grow_cons, grow_cons, step_firstItem (fun same => by rw [same] at begins; exact begins)
    (fun reason same => by rw [same] at begins; exact begins)]

theorem grow_nextItem {node : Node} {tokens : List Token} (spans : node.Spans tokens)
    (start : Token) (items : List Node) (frames : List Frame) :
    grow tokens (.nextItem start items frames) =
      grow tokens (.value (.array start items :: frames)) := by
  rcases spans.begins with ⟨token, rest, rfl, begins⟩
  rw [grow_cons, grow_cons, step_nextItem (fun same => by rw [same] at begins; exact begins)]

mutual

/-- The tokens of a node deliver it. -/
theorem grow_spans {node : Node} {tokens : List Token} (spans : node.Spans tokens)
    (frames : List Frame) : grow tokens (.value frames) = deliver node frames := by
  match spans with
  | .leaf scalar => exact step_scalar scalar frames
  | .emptyArray opens closes => simp only [grow_cons, grow_nil, step, takeValue, opens, closes]
  | .array opens head rest closes =>
      rw [grow_cons, step_arrayStart opens, grow_append, grow_firstItem head, grow_spans head,
        grow_append, deliver, grow_spanItems rest, grow_cons, grow_nil, step_arrayEnd closes,
        List.reverse_append, List.reverse_reverse, List.reverse_singleton, List.singleton_append]
  | .emptyObject opens closes =>
      simp only [grow_cons, grow_nil, step, takeValue, takeKey, opens, closes, List.reverse_nil]
  | .object opens named head rest closes =>
      rw [grow_cons, step_objectStart opens, grow_key named, grow_append, grow_spans head,
        grow_append, deliver, grow_spanMembers rest, grow_cons, grow_nil, step_objectEnd closes,
        List.reverse_append, List.reverse_reverse, List.reverse_singleton, List.singleton_append]

/-- Further items join those that an array holds already. -/
theorem grow_spanItems {nodes : List Node} {tokens : List Token}
    (spans : Node.SpanItems nodes tokens) (start : Token) (items : List Node)
    (frames : List Frame) :
    grow tokens (.item start items frames) = .item start (nodes.reverse ++ items) frames := by
  match spans with
  | .nil => rfl
  | .cons isComma head rest =>
      rw [grow_cons, step_itemComma isComma, grow_append, grow_nextItem head, grow_spans head,
        deliver, grow_spanItems rest, List.reverse_cons, List.append_assoc,
        List.singleton_append]

/-- Further members join those that an object holds already. -/
theorem grow_spanMembers {nodes : List (Key × Node)} {tokens : List Token}
    (spans : Node.SpanMembers nodes tokens) (start : Token) (members : List (Key × Node))
    (frames : List Frame) :
    grow tokens (.member start members frames) =
      .member start (nodes.reverse ++ members) frames := by
  match spans with
  | .nil => rfl
  | .cons isComma named head rest =>
      rw [grow_cons, step_memberComma isComma, grow_key named, grow_append, grow_spans head,
        deliver, grow_spanMembers rest, List.reverse_cons, List.append_assoc,
        List.singleton_append]

end

end Reading
end Json
end RepoInspector
