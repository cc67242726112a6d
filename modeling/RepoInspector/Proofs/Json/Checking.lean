import RepoInspector.Proofs.Json.Decoding

namespace RepoInspector
namespace Json

/-!
# Checking what a document says

Whether a document says a form can be decided, by comparing the form with the
tree of the document.
-/

/-- Whether a token holds a scalar form. -/
def Token.holds (token : Token) (form : Form) : Bool :=
  match form, token.lexeme with
  | .null, .null => true
  | .boolean b, .boolean c => c == b
  | .number numeral, .number other => other == numeral
  | .text pieces, .text spelling => spelling == ⟨pieces, .closed⟩
  | _, _ => false

/-- Whether a key holds the pieces of its name, and its colon follows. -/
def Key.holds (key : Key) (pieces : List Piece) : Bool :=
  match key.name.lexeme, key.next.lexeme with
  | .text spelling, .colon => spelling == ⟨pieces, .closed⟩
  | _, _ => false

namespace Node

mutual

/-- Whether a node is whole and holds a form. -/
def holds : Node -> Form -> Bool
  | .leaf token, form => token.holds form
  | .array _ items (.closed _), .array forms => holdAll items forms
  | .object _ members (.closed _), .object forms => holdMembers members forms
  | _, _ => false

def holdAll : List Node -> List Form -> Bool
  | [], [] => true
  | item :: items, form :: forms => item.holds form && holdAll items forms
  | _, _ => false

def holdMembers : List (Key × Node) -> List (List Piece × Form) -> Bool
  | [], [] => true
  | (key, node) :: members, (name, form) :: forms =>
      key.holds name && (node.holds form && holdMembers members forms)
  | _, _ => false

end

end Node

theorem Token.holds_iff {token : Token} {form : Form} :
    token.holds form = true ↔ token.Holds form := by
  rcases token with ⟨lexeme, start, stop⟩
  cases form <;> cases lexeme <;>
    simp only [Token.holds, Token.Holds, Bool.false_eq_true, beq_iff_eq, Lexeme.boolean.injEq,
      Lexeme.number.injEq, Lexeme.text.injEq, reduceCtorEq]

theorem Key.holds_iff {key : Key} {pieces : List Piece} :
    key.holds pieces = true ↔ key.Holds pieces := by
  rcases key with ⟨⟨name, nameStart, nameStop⟩, ⟨next, nextStart, nextStop⟩⟩
  cases name <;> cases next <;>
    simp only [Key.holds, Key.Holds, Bool.false_eq_true, beq_iff_eq, Lexeme.text.injEq,
      reduceCtorEq, and_true, and_false]

namespace Node

mutual

theorem holds_iff (node : Node) (form : Form) : node.holds form = true ↔ node.Holds form := by
  match node with
  | .leaf token =>
      rw [holds, Token.holds_iff]
      exact ⟨.leaf, fun given => by cases given; assumption⟩
  | .array start items ending =>
      cases ending with
      | closed close =>
          cases form with
          | array forms =>
              rw [holds, holdAll_iff items forms]
              exact ⟨.array, fun given => by cases given; assumption⟩
          | null | boolean | number | text | object => exact ⟨nofun, nofun⟩
      | afterComma | unseparated | broken => cases form <;> exact ⟨nofun, nofun⟩
  | .object start members ending =>
      cases ending with
      | closed close =>
          cases form with
          | object forms =>
              rw [holds, holdMembers_iff members forms]
              exact ⟨.object, fun given => by cases given; assumption⟩
          | null | boolean | number | text | array => exact ⟨nofun, nofun⟩
      | keyless | unseparated | broken => cases form <;> exact ⟨nofun, nofun⟩

theorem holdAll_iff (items : List Node) (forms : List Form) :
    holdAll items forms = true ↔ HoldAll items forms := by
  match items, forms with
  | [], [] => exact ⟨fun _ => .nil, fun _ => rfl⟩
  | item :: items, form :: forms =>
      rw [holdAll, Bool.and_eq_true, holds_iff, holdAll_iff]
      constructor
      · exact fun given => .cons given.1 given.2
      · intro given
        cases given with
        | cons first rest => exact ⟨first, rest⟩
  | [], _ :: _ => exact ⟨nofun, nofun⟩
  | _ :: _, [] => exact ⟨nofun, nofun⟩

theorem holdMembers_iff (members : List (Key × Node)) (forms : List (List Piece × Form)) :
    holdMembers members forms = true ↔ HoldMembers members forms := by
  match members, forms with
  | [], [] => exact ⟨fun _ => .nil, fun _ => rfl⟩
  | (key, node) :: members, (name, form) :: forms =>
      rw [holdMembers, Bool.and_eq_true, Bool.and_eq_true, Key.holds_iff, holds_iff,
        holdMembers_iff]
      constructor
      · exact fun given => .cons given.1 given.2.1 given.2.2
      · intro given
        cases given with
        | cons named first rest => exact ⟨named, first, rest⟩
  | [], _ :: _ => exact ⟨nofun, nofun⟩
  | _ :: _, [] => exact ⟨nofun, nofun⟩

end

end Node

/-- Whether bytes are a document of a form. -/
def Form.isWritten (form : Form) (bytes : List UInt8) : Bool :=
  let tree := Supply.tree ⟨bytes, none⟩
  tree.root.holds form && tree.atEnd.isOk

theorem Form.isWritten_iff {form : Form} {bytes : List UInt8} :
    form.isWritten bytes = true ↔ form.Written bytes := by
  rw [isWritten, Bool.and_eq_true, Node.holds_iff]
  constructor
  · intro given
    rcases given with ⟨holds, ended⟩
    have atEnd : (Supply.tree ⟨bytes, none⟩).atEnd = .ok () := by
      cases ending : (Supply.tree ⟨bytes, none⟩).atEnd with
      | ok => rfl
      | error fault =>
          rw [ending] at ended
          cases ended
    rcases Supply.tree_cases ⟨bytes, none⟩ with breaks | ⟨other, otherHolds, written⟩
    · exact absurd (Node.pass_holds holds) (Node.pass_breaks breaks)
    · cases Node.holds_unique holds otherHolds
      exact (written atEnd).2
  · intro written
    rcases Supply.tree_of_written ⟨bytes, none⟩ rfl written with
      ⟨root, finish, isTree, holds, isFinish⟩
    rw [isTree]
    refine ⟨holds, ?_⟩
    simp only [Tree.atEnd, isFinish]
    rfl

instance (form : Form) (bytes : List UInt8) : Decidable (form.Written bytes) :=
  decidable_of_iff (form.isWritten bytes = true) Form.isWritten_iff

end Json
end RepoInspector
