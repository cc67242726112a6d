import RepoInspector.Proofs.Json.Places
import RepoInspector.Proofs.Json.Spans

namespace RepoInspector
namespace Json

/-!
# The growth of trees

A tree that has grown to its end holds the form whose lexemes were taken, or
it breaks.  One direction goes by the tokens of a form, which deliver a node
that holds it.  The other follows the tokens: what a reading has seen is
determined by its frames, and each step either keeps this account or ends with
a node that breaks.
-/

namespace Form

/-- The lexemes of items after which another one is due. -/
def openItemLexemes : List Form -> List Lexeme
  | [] => []
  | item :: items => itemLexemes (item :: items) ++ [.comma]

/-- The lexemes of members after which another one is due. -/
def openMemberLexemes : List (List Piece × Form) -> List Lexeme
  | [] => []
  | member :: members => memberLexemes (member :: members) ++ [.comma]

theorem laterItemLexemes_append (items : List Form) (item : Form) :
    laterItemLexemes (items ++ [item]) = laterItemLexemes items ++ .comma :: item.lexemes := by
  induction items with
  | nil => simp only [List.nil_append, laterItemLexemes, List.append_nil]
  | cons first items inductionHypothesis =>
      simp only [List.cons_append, laterItemLexemes, inductionHypothesis, List.append_assoc]

theorem itemLexemes_append (items : List Form) (item : Form) :
    itemLexemes (items ++ [item]) = openItemLexemes items ++ item.lexemes := by
  cases items with
  | nil => simp only [List.nil_append, itemLexemes, laterItemLexemes, openItemLexemes,
      List.append_nil]
  | cons first items =>
      simp only [List.cons_append, itemLexemes, openItemLexemes, laterItemLexemes_append,
        List.append_assoc, List.nil_append]

theorem laterMemberLexemes_append (members : List (List Piece × Form)) (name : List Piece)
    (form : Form) :
    laterMemberLexemes (members ++ [(name, form)]) =
      laterMemberLexemes members ++ .comma :: .closedText name :: .colon :: form.lexemes := by
  induction members with
  | nil => simp only [List.nil_append, laterMemberLexemes, List.append_nil]
  | cons first members inductionHypothesis =>
      simp only [List.cons_append, laterMemberLexemes, inductionHypothesis, List.append_assoc]

theorem memberLexemes_append (members : List (List Piece × Form)) (name : List Piece)
    (form : Form) :
    memberLexemes (members ++ [(name, form)]) =
      openMemberLexemes members ++ .closedText name :: .colon :: form.lexemes := by
  cases members with
  | nil => simp only [List.nil_append, memberLexemes, laterMemberLexemes, openMemberLexemes,
      List.append_nil]
  | cons first members =>
      simp only [List.cons_append, memberLexemes, openMemberLexemes, laterMemberLexemes_append,
        List.append_assoc, List.nil_append]

end Form

/-- The lexemes that were taken before the value that is due inside frames. -/
inductive SeenAround : List Frame -> List Lexeme -> Prop
  | root : SeenAround [] []
  | array {frames : List Frame} {seen : List Lexeme} {start : Token} {items : List Node}
      {forms : List Form} (around : SeenAround frames seen)
      (inner : Node.HoldAll items.reverse forms) :
      SeenAround (.array start items :: frames)
        (seen ++ .arrayStart :: Form.openItemLexemes forms)
  | object {frames : List Frame} {seen : List Lexeme} {start : Token}
      {members : List (Key × Node)} {key : Key} {name : List Piece}
      {forms : List (List Piece × Form)} (around : SeenAround frames seen)
      (inner : Node.HoldMembers members.reverse forms) (named : key.Holds name) :
      SeenAround (.object start members key :: frames)
        (seen ++ .objectStart :: (Form.openMemberLexemes forms ++ [.closedText name, .colon]))

/-- The lexemes that a reading has taken.  Of a reading that is done, those
after the value are not told apart; of one that broke off, none are. -/
inductive Reading.Seen : Reading -> List Lexeme -> Prop
  | value {frames : List Frame} {seen : List Lexeme} (around : SeenAround frames seen) :
      Seen (.value frames) seen
  | firstItem {start : Token} {frames : List Frame} {seen : List Lexeme}
      (around : SeenAround frames seen) : Seen (.firstItem start frames) (seen ++ [.arrayStart])
  | item {start : Token} {items : List Node} {frames : List Frame} {seen : List Lexeme}
      {form : Form} {forms : List Form} (around : SeenAround frames seen)
      (inner : Node.HoldAll items.reverse (form :: forms)) :
      Seen (.item start items frames)
        (seen ++ .arrayStart :: Form.itemLexemes (form :: forms))
  | nextItem {start : Token} {items : List Node} {frames : List Frame} {seen : List Lexeme}
      {form : Form} {forms : List Form} (around : SeenAround frames seen)
      (inner : Node.HoldAll items.reverse (form :: forms)) :
      Seen (.nextItem start items frames)
        (seen ++ .arrayStart :: Form.openItemLexemes (form :: forms))
  | firstKey {start : Token} {frames : List Frame} {seen : List Lexeme}
      (around : SeenAround frames seen) :
      Seen (.keyOrEnd start [] false frames) (seen ++ [.objectStart])
  | nextKey {start : Token} {members : List (Key × Node)} {frames : List Frame}
      {seen : List Lexeme} {form : List Piece × Form} {forms : List (List Piece × Form)}
      (around : SeenAround frames seen)
      (inner : Node.HoldMembers members.reverse (form :: forms)) :
      Seen (.keyOrEnd start members true frames)
        (seen ++ .objectStart :: Form.openMemberLexemes (form :: forms))
  | colon {start : Token} {members : List (Key × Node)} {name : Token} {frames : List Frame}
      {seen : List Lexeme} {pieces : List Piece} {forms : List (List Piece × Form)}
      (around : SeenAround frames seen) (inner : Node.HoldMembers members.reverse forms)
      (named : name.lexeme = .closedText pieces) :
      Seen (.colon start members name frames)
        (seen ++ .objectStart :: (Form.openMemberLexemes forms ++ [.closedText pieces]))
  | member {start : Token} {members : List (Key × Node)} {frames : List Frame}
      {seen : List Lexeme} {form : List Piece × Form} {forms : List (List Piece × Form)}
      (around : SeenAround frames seen)
      (inner : Node.HoldMembers members.reverse (form :: forms)) :
      Seen (.member start members frames)
        (seen ++ .objectStart :: Form.memberLexemes (form :: forms))
  | finished {root : Node} {form : Form} (holds : root.Holds form) :
      Seen (.finished root) form.lexemes
  | done {root : Node} {form : Form} {token : Token} (later : List Lexeme)
      (holds : root.Holds form) :
      Seen (.done root (some token)) (form.lexemes ++ token.lexeme :: later)
  | broken {root : Node} {seen : List Lexeme} (breaks : root.Breaks) :
      Seen (.done root none) seen

namespace Reading

theorem breaks_breakOff {node : Node} (breaks : node.Breaks) (frames : List Frame) :
    (frames.foldl Frame.breakOff node).Breaks := by
  induction frames generalizing node with
  | nil => exact breaks
  | cons frame frames inductionHypothesis =>
      apply inductionHypothesis
      cases frame with
      | array start items =>
          exact .item (List.mem_reverse.mpr List.mem_cons_self) breaks
      | object start members key =>
          exact .member (List.mem_reverse.mpr List.mem_cons_self) breaks

theorem breaks_unseparatedItem (start next : Token) (items : List Node) :
    (Node.array start items (.unseparated next)).Breaks :=
  .arrayEnding trivial

theorem breaks_afterComma (start close : Token) (items : List Node) :
    (Node.array start items (.afterComma close)).Breaks :=
  .arrayEnding trivial

theorem breaks_keyless (start next : Token) (members : List (Key × Node)) (comma : Bool) :
    (Node.object start members (.keyless comma next)).Breaks :=
  .objectEnding trivial

theorem breaks_unseparatedMember (start next : Token) (members : List (Key × Node)) :
    (Node.object start members (.unseparated next)).Breaks :=
  .objectEnding trivial

theorem seen_breakOff {node : Node} (breaks : node.Breaks) (frames : List Frame)
    (seen : List Lexeme) : Seen (breakOff node frames) seen :=
  .broken (breaks_breakOff breaks frames)

/-- A value that is delivered has been seen where it belongs. -/
theorem seen_deliver {frames : List Frame} {seen : List Lexeme} {node : Node} {form : Form}
    (around : SeenAround frames seen) (holds : node.Holds form) :
    Seen (deliver node frames) (seen ++ form.lexemes) := by
  cases around with
  | root => exact .finished holds
  | array around inner =>
      rename_i frames seen start items forms
      have joined : Node.HoldAll (node :: items).reverse (forms ++ [form]) := by
        rw [List.reverse_cons]
        exact inner.append (.cons holds .nil)
      rw [List.append_assoc, List.cons_append, ← Form.itemLexemes_append]
      cases forms with
      | nil => exact .item around joined
      | cons first forms => exact .item around joined
  | object around inner named =>
      rename_i frames seen start members key name forms
      have joined : Node.HoldMembers ((key, node) :: members).reverse
          (forms ++ [(name, form)]) := by
        rw [List.reverse_cons]
        exact inner.append (.cons named holds .nil)
      rw [List.append_assoc, List.cons_append, List.append_assoc]
      change Seen _ (seen ++ .objectStart ::
        (Form.openMemberLexemes forms ++ (.closedText name :: .colon :: form.lexemes)))
      rw [← Form.memberLexemes_append]
      cases forms with
      | nil => exact .member around joined
      | cons first forms => exact .member around joined

/-- What is seen after a token where a value is due. -/
theorem seen_takeValue {frames : List Frame} {seen : List Lexeme}
    (around : SeenAround frames seen) (token : Token) :
    Seen (takeValue frames token) (seen ++ [token.lexeme]) := by
  rcases token with ⟨lexeme, start, stop⟩
  cases lexeme with
  | arrayStart => exact .firstItem around
  | objectStart => exact .firstKey around
  | null =>
      have holds : Token.Holds ⟨.null, start, stop⟩ .null := rfl
      exact seen_deliver around (.leaf holds)
  | boolean b =>
      have holds : Token.Holds ⟨.boolean b, start, stop⟩ (.boolean b) := rfl
      exact seen_deliver around (.leaf holds)
  | number numeral =>
      have holds : Token.Holds ⟨.number numeral, start, stop⟩ (.number numeral) := rfl
      exact seen_deliver around (.leaf holds)
  | text spelling =>
      rcases spelling with ⟨pieces, ending⟩
      by_cases closed : ending = .closed
      · subst closed
        have holds : Token.Holds ⟨.closedText pieces, start, stop⟩ (.text pieces) := rfl
        exact seen_deliver around (.leaf holds)
      · simp only [takeValue, if_neg closed]
        refine seen_breakOff (.leaf fun form holds => ?_) frames _
        cases form <;> simp_all [Token.Holds]
  | comma | colon | arrayEnd | objectEnd | malformed | stray | finish =>
      refine seen_breakOff (.leaf fun form holds => ?_) frames _
      cases form <;> cases holds

/-- What is seen after a token where a name is due, with `opened` the lexemes
of the object so far. -/
theorem seen_takeKey {start : Token} {members : List (Key × Node)} {frames : List Frame}
    {seen : List Lexeme} {forms : List (List Piece × Form)} (comma : Bool)
    (around : SeenAround frames seen) (inner : Node.HoldMembers members.reverse forms)
    (empty : comma = false -> members = [])
    (token : Token) :
    Seen (takeKey start members comma frames token)
      (seen ++ .objectStart :: (Form.openMemberLexemes forms ++ [token.lexeme])) := by
  rcases token with ⟨lexeme, start, stop⟩
  cases lexeme with
  | text spelling =>
      rcases spelling with ⟨pieces, ending⟩
      by_cases closed : ending = .closed
      · subst closed
        simp only [takeKey, if_true]
        exact .colon around inner rfl
      · simp only [takeKey, if_neg closed]
        have unclosed : Key.Breaks ⟨⟨.text ⟨pieces, ending⟩, start, stop⟩,
            ⟨.text ⟨pieces, ending⟩, start, stop⟩⟩ := ⟨_, rfl, .inl closed⟩
        exact seen_breakOff (.key (List.mem_reverse.mpr List.mem_cons_self) unclosed) frames _
  | objectEnd =>
      cases comma with
      | true => exact seen_breakOff (breaks_keyless _ _ _ _) frames _
      | false =>
          have noMembers := empty rfl
          subst noMembers
          cases inner
          exact seen_deliver around (.object .nil)
  | comma | colon | arrayStart | arrayEnd | objectStart | null | boolean | number | malformed
  | stray | finish =>
      exact seen_breakOff (breaks_keyless _ _ _ _) frames _

theorem seen_firstItem {start : Token} {frames : List Frame} {seen : List Lexeme}
    (around : SeenAround frames seen) (token : Token) :
    Seen (step token (.firstItem start frames)) (seen ++ [.arrayStart] ++ [token.lexeme]) := by
  have empty : Node.HoldAll ([] : List Node).reverse [] := .nil
  by_cases isEnd : token.lexeme = .arrayEnd
  · rw [step, isEnd, List.append_assoc]
    exact seen_deliver around (.array .nil)
  by_cases isFinish : Exists fun reason => token.lexeme = .finish reason
  · rcases isFinish with ⟨reason, isFinish⟩
    rw [step, isFinish]
    exact seen_breakOff (breaks_unseparatedItem _ _ _) frames _
  · rw [step_firstItem isEnd fun reason same => isFinish ⟨reason, same⟩]
    exact seen_takeValue (.array around empty) token

theorem seen_nextItem {start : Token} {items : List Node} {frames : List Frame}
    {seen : List Lexeme} {form : Form} {forms : List Form} (around : SeenAround frames seen)
    (inner : Node.HoldAll items.reverse (form :: forms)) (token : Token) :
    Seen (step token (.nextItem start items frames))
      (seen ++ .arrayStart :: Form.openItemLexemes (form :: forms) ++ [token.lexeme]) := by
  by_cases isEnd : token.lexeme = .arrayEnd
  · rw [step, isEnd]
    exact seen_breakOff (breaks_afterComma _ _ _) frames _
  · rw [step_nextItem isEnd]
    exact seen_takeValue (.array around inner) token

theorem seen_colon {start name : Token} {members : List (Key × Node)} {frames : List Frame}
    {seen : List Lexeme} {pieces : List Piece} {forms : List (List Piece × Form)}
    (around : SeenAround frames seen) (inner : Node.HoldMembers members.reverse forms)
    (named : name.lexeme = .closedText pieces) (token : Token) :
    Seen (step token (.colon start members name frames))
      (seen ++ .objectStart :: (Form.openMemberLexemes forms ++ [.closedText pieces]) ++
        [token.lexeme]) := by
  rw [List.append_assoc, List.cons_append, List.append_assoc, List.singleton_append]
  rcases token with ⟨lexeme, start, stop⟩
  cases lexeme with
  | colon => exact .value (.object around inner ⟨named, rfl⟩)
  | comma | arrayStart | arrayEnd | objectStart | objectEnd | null | boolean | number | text
  | malformed | stray | finish =>
      refine seen_breakOff (.key (List.mem_reverse.mpr List.mem_cons_self) ?_) frames _
      exact ⟨_, named, .inr nofun⟩

/-- Each step adds its token to what has been seen. -/
theorem seen_step {reading : Reading} {seen : List Lexeme} (before : Seen reading seen)
    (token : Token) : Seen (step token reading) (seen ++ [token.lexeme]) := by
  cases before with
  | value around => exact seen_takeValue around token
  | firstItem around => exact seen_firstItem around token
  | item around inner =>
      rename_i start items frames seen form forms
      rw [List.append_assoc, List.cons_append]
      rcases token with ⟨lexeme, start, stop⟩
      cases lexeme with
      | comma => exact .nextItem around inner
      | arrayEnd => exact seen_deliver around (.array inner)
      | colon | arrayStart | objectStart | objectEnd | null | boolean | number | text
      | malformed | stray | finish =>
          exact seen_breakOff (breaks_unseparatedItem _ _ _) frames _
  | nextItem around inner => exact seen_nextItem around inner token
  | firstKey around =>
      have empty : Node.HoldMembers ([] : List (Key × Node)).reverse [] := .nil
      rw [List.append_assoc, List.singleton_append]
      exact seen_takeKey false around empty (fun _ => rfl) token
  | nextKey around inner =>
      rw [List.append_assoc, List.cons_append]
      exact seen_takeKey true around inner nofun token
  | colon around inner named => exact seen_colon around inner named token
  | member around inner =>
      rename_i start members frames seen form forms
      rw [List.append_assoc, List.cons_append]
      rcases token with ⟨lexeme, start, stop⟩
      cases lexeme with
      | comma => exact .nextKey around inner
      | objectEnd => exact seen_deliver around (.object inner)
      | colon | arrayStart | arrayEnd | objectStart | null | boolean | number | text
      | malformed | stray | finish =>
          exact seen_breakOff (breaks_unseparatedMember _ _ _) frames _
  | finished holds => exact .done [] holds
  | done later holds =>
      rw [List.append_assoc, List.cons_append]
      exact .done (later ++ [token.lexeme]) holds
  | broken breaks => exact .broken breaks

theorem seen_grow {reading : Reading} {seen : List Lexeme} (before : Seen reading seen)
    (tokens : List Token) : Seen (grow tokens reading) (seen ++ tokens.map Token.lexeme) := by
  induction tokens generalizing reading seen with
  | nil => rwa [List.map_nil, List.append_nil]
  | cons token tokens inductionHypothesis =>
      have after := inductionHypothesis (seen_step before token)
      rwa [List.append_assoc, List.singleton_append] at after

/-- A token that ends a document ends the reading. -/
theorem step_last {token : Token} (isLast : token.lexeme.isLast = true) (reading : Reading) :
    Exists fun root => Exists fun trailing => step token reading = .done root trailing := by
  have taken : forall frames,
      Exists fun root => Exists fun trailing => takeValue frames token = .done root trailing := by
    intro frames
    rcases token with ⟨lexeme, start, stop⟩
    cases lexeme with
    | text spelling =>
        have open_ : spelling.ending ≠ .closed := by simpa [Lexeme.isLast] using isLast
        simp only [takeValue, if_neg open_]
        exact ⟨_, _, rfl⟩
    | malformed | stray | finish => exact ⟨_, _, rfl⟩
    | comma | colon | arrayStart | arrayEnd | objectStart | objectEnd | null | boolean
    | number => cases isLast
  have notEnd : forall other : Lexeme, other.isLast = false -> token.lexeme ≠ other := by
    intro other goesOn same
    rw [same, goesOn] at isLast
    cases isLast
  cases reading with
  | value frames => exact taken frames
  | firstItem start frames =>
      by_cases isFinish : Exists fun reason => token.lexeme = .finish reason
      · rcases isFinish with ⟨reason, isFinish⟩
        rw [step, isFinish]
        exact ⟨_, _, rfl⟩
      · rw [step_firstItem (notEnd _ rfl) fun reason same => isFinish ⟨reason, same⟩]
        exact taken _
  | nextItem start items frames =>
      rw [step_nextItem (notEnd _ rfl)]
      exact taken _
  | keyOrEnd start members comma frames =>
      rcases token with ⟨lexeme, start, stop⟩
      cases lexeme with
      | text spelling =>
          have open_ : spelling.ending ≠ .closed := by simpa [Lexeme.isLast] using isLast
          simp only [step, takeKey, if_neg open_]
          exact ⟨_, _, rfl⟩
      | malformed | stray | finish => exact ⟨_, _, rfl⟩
      | comma | colon | arrayStart | arrayEnd | objectStart | objectEnd | null | boolean
      | number => cases isLast
  | item start items frames | colon start members name frames | member start members frames =>
      rcases token with ⟨lexeme, start, stop⟩
      cases lexeme with
      | text | malformed | stray | finish => exact ⟨_, _, rfl⟩
      | comma | colon | arrayStart | arrayEnd | objectStart | objectEnd | null | boolean
      | number => cases isLast
  | finished root => exact ⟨_, _, rfl⟩
  | done root trailing => exact ⟨_, _, rfl⟩

end Reading

/-!
## Documents

What a reader of trees makes of a document is what it makes of the form that
is written there.
-/

/-- The tokens of a document always grow into a tree. -/
theorem Supply.grow_tokens (supply : Supply) :
    Exists fun root => Exists fun trailing =>
      Reading.grow supply.tokens (.value []) = .done root trailing := by
  rcases Token.scan_ends supply.bytes.length 0 supply.failure supply.bytes with
    ⟨before, last, split, isLast⟩
  rw [Supply.tokens, split, Reading.grow_append]
  exact Reading.step_last isLast (Reading.grow before (.value []))

/-- The tree of tokens that grow into one. -/
theorem Supply.tree_of_done {supply : Supply} {root : Node} {trailing : Option Token}
    (grown : Reading.grow supply.tokens (.value []) = .done root trailing) :
    supply.tree = ⟨root, trailing⟩ := by
  have folded : supply.tokens.foldl (fun reading token => Reading.step token reading)
      (.value []) = .done root trailing := grown
  simp only [Supply.tree, Tree.ofTokens, folded]

/-- A document in which a form is written grows into a tree that holds it. -/
theorem Supply.tree_of_written (supply : Supply) {form : Form} (complete : supply.failure = none)
    (written : form.Written supply.bytes) :
    Exists fun root : Node => Exists fun finish : Token =>
      supply.tree = ⟨root, some finish⟩ ∧ root.Holds form ∧ finish.lexeme = .finish none := by
  rcases supply.placed_of_written complete written with
    ⟨taken, finish, _, spelled, split, isFinish⟩
  rcases form.spanned spelled with ⟨root, holds, spans⟩
  have grown : Reading.grow supply.tokens (.value []) = .done root (some finish) := by
    rw [split, Reading.grow_append, Reading.grow_spans spans]
    rfl
  exact ⟨root, finish, Supply.tree_of_done grown, holds, isFinish⟩

/-- The last token of an object closes it. -/
theorem Node.Spans.closing {start close : Token} {members : List (Key × Node)}
    {tokens : List Token} (spans : (Node.object start members (.closed close)).Spans tokens) :
    Exists fun between => tokens = between ++ [close] ∧ close.lexeme = .objectEnd := by
  cases spans with
  | emptyObject _ closes => exact ⟨[start], rfl, closes⟩
  | @object _ _ key _ _ _ first later _ _ _ _ closes =>
      refine ⟨start :: key.name :: key.next :: (first ++ later), ?_, closes⟩
      simp only [List.cons_append, List.append_assoc]

/-- The last byte of a document that is not blank is a brace, and `offset` counts
the bytes up to it and with it. -/
def ClosedAt (offset : Nat) (bytes : List UInt8) : Prop :=
  Exists fun front => Exists fun blanks => bytes = front ++ 0x7d :: blanks ∧
    (∀ byte ∈ blanks, isBlankByte byte = true) ∧ offset = front.length + 1

/-- An object that is a whole document is closed by the last brace of the
document. -/
theorem Supply.tree_of_object (supply : Supply) {forms : List (List Piece × Form)}
    (complete : supply.failure = none) (written : (Form.object forms).Written supply.bytes) :
    Exists fun start : Token => Exists fun members : List (Key × Node) =>
      Exists fun close : Token => Exists fun finish : Token =>
        supply.tree = ⟨.object start members (.closed close), some finish⟩ ∧
          Node.HoldMembers members forms ∧ finish.lexeme = .finish none ∧
          ClosedAt close.stop supply.bytes := by
  rcases supply.placed_of_written complete written with
    ⟨tokens, finish, placed, spelled, isTokens, isFinish⟩
  rcases Form.spanned _ spelled with ⟨root, holds, spans⟩
  have read : Reading.grow supply.tokens (.value []) = .done root (some finish) := by
    rw [isTokens, Reading.grow_append, Reading.grow_spans spans]
    rfl
  cases holds with
  | leaf scalar => exact scalar.elim
  | @object start close members _ inner =>
  rcases spans.closing with ⟨between, rfl, closes⟩
  refine ⟨start, members, close, finish, Supply.tree_of_done read, inner, isFinish, ?_⟩
  rcases placed.append_left with ⟨before, last, split, _, alone⟩
  rcases alone.single with ⟨front, brace, blanks, rfl, spells, begins, ends, allBlank⟩
  rw [closes] at spells
  cases spells
  refine ⟨before ++ front, blanks, ?_, allBlank, ?_⟩
  · rw [split, List.append_assoc]
    rfl
  · rw [ends, begins, List.length_append, Nat.zero_add]
    rfl

/-- A tree breaks, or it holds a form, and then that form is the document
unless something follows its value. -/
theorem Supply.tree_cases (supply : Supply) :
    supply.tree.root.Breaks ∨
    Exists fun form : Form => supply.tree.root.Holds form ∧
      (supply.tree.atEnd = .ok () -> supply.failure = none ∧ form.Written supply.bytes) := by
  rcases supply.grow_tokens with ⟨root, trailing, grown⟩
  have isTree := Supply.tree_of_done grown
  have seen := Reading.seen_grow (.value .root) supply.tokens
  rw [grown] at seen
  rw [isTree]
  generalize taken : [] ++ supply.tokens.map Token.lexeme = lexemes at seen
  cases seen with
  | broken breaks => exact .inl breaks
  | done later holds =>
      rename_i form token
      refine .inr ⟨form, holds, fun ended => ?_⟩
      rcases token with ⟨lexeme, start, stop⟩
      cases lexeme with
      | finish failure =>
          cases failure with
          | some reason => cases ended
          | none =>
              -- The end of the document is its last token, so nothing stands behind it.
              rcases List.map_eq_append_iff.mp taken with ⟨first, second, cut, spelled, behind⟩
              rcases List.map_eq_cons_iff.mp behind with ⟨finish, rest, rfl, isFinish, spelledRest⟩
              have ends := Token.scan_last cut (by rw [isFinish]; rfl)
              rw [ends, List.map_nil] at spelledRest
              rw [← spelledRest] at taken
              exact Token.layout_of_scan taken
      | comma | colon | arrayStart | arrayEnd | objectStart | objectEnd | null | boolean | number
      | text | malformed | stray => cases ended

/-- The grammar is unambiguous. -/
theorem Form.written_unique {first second : Form} {bytes : List UInt8}
    (left : first.Written bytes) (right : second.Written bytes) : first = second := by
  rcases Supply.tree_of_written ⟨bytes, none⟩ rfl left with
    ⟨root, finish, isTree, holds, _⟩
  rcases Supply.tree_of_written ⟨bytes, none⟩ rfl right with
    ⟨other, otherFinish, isOther, otherHolds, _⟩
  have same : root = other := congrArg Tree.root (isTree.symm.trans isOther)
  rw [← same] at otherHolds
  exact Node.holds_unique holds otherHolds

/-- Where a form is written, what holds of any form there holds of this one. -/
theorem Form.exists_written_iff {form : Form} {bytes : List UInt8} (written : form.Written bytes)
    {holds : Form -> Prop} :
    (Exists fun other : Form => other.Written bytes ∧ holds other) ↔ holds form := by
  constructor
  · intro given
    rcases given with ⟨other, again, here⟩
    cases Form.written_unique written again
    exact here
  · exact fun here => ⟨form, written, here⟩

theorem Tree.unopened_eq_ok_iff {α : Type} {root : Node} {result : Except Fault α} {a : α} :
    unopened root result = .ok a ↔ result = .ok a := by
  cases result with
  | ok found => cases root <;> exact Iff.rfl
  | error fault => cases root <;> exact ⟨nofun, nofun⟩

/-- Reading the tree of a document is reading the form that is written there,
for every reader that rejects what breaks and depends on nothing but the form. -/
theorem Supply.read_tree_iff {α : Type} {reader : Node -> Except Fault α}
    {means : Form -> α -> Prop}
    (rejects : forall {node : Node} {a : α}, node.Breaks -> reader node ≠ .ok a)
    (reads : forall {node : Node} {form : Form} {a : α}, node.Holds form ->
      (reader node = .ok a ↔ means form a))
    {supply : Supply} {a : α} :
    supply.tree.read reader = .ok a ↔
      supply.failure = none ∧
        Exists fun form : Form => form.Written supply.bytes ∧ means form a := by
  have parts : supply.tree.read reader = .ok a ↔
      reader supply.tree.root = .ok a ∧ supply.tree.atEnd = .ok () := by
    rw [Tree.read, bind_eq_ok_iff]
    constructor
    · intro given
      rcases given with ⟨found, accepted, done⟩
      rcases bind_eq_ok_iff.mp done with ⟨ended, atEnd, same⟩
      cases same
      exact ⟨Tree.unopened_eq_ok_iff.mp accepted, atEnd⟩
    · intro given
      rcases given with ⟨accepted, atEnd⟩
      exact ⟨a, Tree.unopened_eq_ok_iff.mpr accepted, bind_eq_ok_iff.mpr ⟨(), atEnd, rfl⟩⟩
  rw [parts]
  constructor
  · intro given
    rcases given with ⟨accepted, ended⟩
    rcases supply.tree_cases with breaks | ⟨form, holds, written⟩
    · exact absurd accepted (rejects breaks)
    · exact ⟨(written ended).1, form, (written ended).2, (reads holds).mp accepted⟩
  · intro given
    rcases given with ⟨complete, form, written, meant⟩
    rcases supply.tree_of_written complete written with ⟨root, finish, isTree, holds, isFinish⟩
    rw [isTree]
    refine ⟨(reads holds).mpr meant, ?_⟩
    simp only [Tree.atEnd, isFinish]

end Json
end RepoInspector
