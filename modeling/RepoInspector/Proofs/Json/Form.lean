import RepoInspector.Json.Reading

namespace RepoInspector

theorem ok_bind {ε α β : Type} (a : α) (next : α -> Except ε β) :
    (Except.ok a >>= next) = next a := rfl

/-- A result in two steps comes from a result of the first. -/
theorem bind_eq_ok_iff {ε α β : Type} {result : Except ε α} {next : α -> Except ε β} {b : β} :
    (result >>= next) = .ok b ↔ Exists fun a => result = .ok a ∧ next a = .ok b := by
  cases result with
  | error fault => exact ⟨nofun, nofun⟩
  | ok found =>
      constructor
      · intro done
        exact ⟨found, rfl, done⟩
      · intro given
        rcases given with ⟨a, same, done⟩
        cases same
        exact done

/-- A pair comes of a result for each of its parts. -/
theorem pair_eq_ok_iff {ε α β : Type} {first : Except ε α} {second : Except ε β} {a : α} {b : β} :
    (first >>= fun a => second >>= fun b => .ok (a, b)) = .ok (a, b) ↔
      first = .ok a ∧ second = .ok b := by
  cases first with
  | error fault => exact ⟨nofun, fun both => (nomatch both.1)⟩
  | ok found =>
      cases second with
      | error fault => exact ⟨nofun, fun both => (nomatch both.2)⟩
      | ok other =>
          rw [ok_bind, ok_bind, Except.ok.injEq, Except.ok.injEq, Except.ok.injEq, Prod.mk.injEq]

theorem prepend_eq_ok_iff {ε α β : Type} {first a : α} {second : Except ε β} {b : β} :
    (second >>= fun b => .ok (first, b)) = .ok (a, b) ↔
      some first = some a ∧ second = .ok b := by
  cases second with
  | error fault => exact ⟨nofun, fun both => (nomatch both.2)⟩
  | ok other =>
      rw [ok_bind, Except.ok.injEq, Except.ok.injEq, Option.some.injEq, Prod.mk.injEq]

theorem map_eq_ok_iff {ε α β : Type} {result : Except ε α} {f : α -> β} {b : β} :
    result.map f = .ok b ↔ Exists fun a => result = .ok a ∧ f a = b := by
  cases result with
  | error fault => exact ⟨nofun, nofun⟩
  | ok found =>
      constructor
      · intro done
        exact ⟨found, rfl, Except.ok.inj done⟩
      · intro given
        rcases given with ⟨a, same, done⟩
        cases same
        exact congrArg Except.ok done

namespace Json

/-- A result in two steps fails in the first or in the second. -/
theorem bind_eq_error_iff {ε α β : Type} {result : Except ε α} {next : α -> Except ε β}
    {fault : ε} :
    (result >>= next) = .error fault ↔
      result = .error fault ∨ Exists fun a => result = .ok a ∧ next a = .error fault := by
  cases result with
  | error other =>
      constructor
      · intro failed
        exact .inl (congrArg Except.error (Except.error.inj failed))
      · intro given
        rcases given with same | ⟨a, impossible, _⟩
        · exact congrArg Except.error (Except.error.inj same)
        · cases impossible
  | ok found =>
      constructor
      · exact fun failed => .inr ⟨found, rfl, failed⟩
      · intro given
        rcases given with impossible | ⟨a, same, failed⟩
        · cases impossible
        · cases same
          exact failed

theorem map_eq_error_iff {ε α β : Type} {result : Except ε α} {f : α -> β} {fault : ε} :
    result.map f = .error fault ↔ result = .error fault := by
  cases result with
  | error other => rw [Except.map, Except.error.injEq, Except.error.injEq]
  | ok found => exact ⟨nofun, nofun⟩

/-!
# Forms

A form is what a grammatical document says before any text or number in it is
decoded, and without the places at which it says so.  Objects keep their
members in text order, repeated names included.  Trees are compared with
forms: a node either holds exactly one form, or it breaks somewhere, and the
two exclude each other for every reader that looks at the whole node.
-/

/-- The syntax of a value.  Texts are kept as they are spelled. -/
inductive Form
  | null
  | boolean (b : Bool)
  | number (numeral : Numeral)
  | text (pieces : List Piece)
  | array (items : List Form)
  | object (members : List (List Piece × Form))

/-- The lexeme of a text whose closing quote is there. -/
abbrev Lexeme.closedText (pieces : List Piece) : Lexeme := .text ⟨pieces, .closed⟩

namespace Form

mutual

/-- The lexemes of a form in text order. -/
def lexemes : Form -> List Lexeme
  | .null => [.null]
  | .boolean b => [.boolean b]
  | .number numeral => [.number numeral]
  | .text pieces => [.closedText pieces]
  | .array items => .arrayStart :: (itemLexemes items ++ [.arrayEnd])
  | .object members => .objectStart :: (memberLexemes members ++ [.objectEnd])

/-- The lexemes of items with commas between them. -/
def itemLexemes : List Form -> List Lexeme
  | [] => []
  | item :: items => item.lexemes ++ laterItemLexemes items

/-- The lexemes of items with a comma before each of them. -/
def laterItemLexemes : List Form -> List Lexeme
  | [] => []
  | item :: items => .comma :: (item.lexemes ++ laterItemLexemes items)

/-- The lexemes of members with commas between them. -/
def memberLexemes : List (List Piece × Form) -> List Lexeme
  | [] => []
  | (name, form) :: members =>
      .closedText name :: .colon :: (form.lexemes ++ laterMemberLexemes members)

/-- The lexemes of members with a comma before each of them. -/
def laterMemberLexemes : List (List Piece × Form) -> List Lexeme
  | [] => []
  | (name, form) :: members =>
      .comma :: .closedText name :: .colon :: (form.lexemes ++ laterMemberLexemes members)

end

end Form

/-- A token holds a scalar form. -/
def Token.Holds (token : Token) : Form -> Prop
  | .null => token.lexeme = .null
  | .boolean b => token.lexeme = .boolean b
  | .number numeral => token.lexeme = .number numeral
  | .text pieces => token.lexeme = .closedText pieces
  | _ => False

/-- A key holds the pieces of its name, and its colon follows. -/
def Key.Holds (key : Key) (pieces : List Piece) : Prop :=
  key.name.lexeme = .closedText pieces ∧ key.next.lexeme = .colon

mutual

/-- A node is closed and whole, and holds a form. -/
inductive Node.Holds : Node -> Form -> Prop
  | leaf {token : Token} {form : Form} (scalar : token.Holds form) : Holds (.leaf token) form
  | array {start close : Token} {items : List Node} {forms : List Form}
      (inner : Node.HoldAll items forms) : Holds (.array start items (.closed close)) (.array forms)
  | object {start close : Token} {members : List (Key × Node)}
      {forms : List (List Piece × Form)} (inner : Node.HoldMembers members forms) :
      Holds (.object start members (.closed close)) (.object forms)

inductive Node.HoldAll : List Node -> List Form -> Prop
  | nil : HoldAll [] []
  | cons {item : Node} {items : List Node} {form : Form} {forms : List Form}
      (first : Node.Holds item form) (rest : Node.HoldAll items forms) :
      HoldAll (item :: items) (form :: forms)

inductive Node.HoldMembers : List (Key × Node) -> List (List Piece × Form) -> Prop
  | nil : HoldMembers [] []
  | cons {key : Key} {node : Node} {members : List (Key × Node)} {name : List Piece}
      {form : Form} {forms : List (List Piece × Form)} (named : key.Holds name)
      (first : Node.Holds node form) (rest : Node.HoldMembers members forms) :
      HoldMembers ((key, node) :: members) ((name, form) :: forms)

end

/-- An array ends in a way that no reader accepts. -/
def ArrayEnd.Breaks : ArrayEnd -> Prop
  | .closed _ | .broken => False
  | .afterComma _ | .unseparated _ => True

/-- An object ends in a way that no reader accepts. -/
def ObjectEnd.Breaks : ObjectEnd -> Prop
  | .closed _ | .broken => False
  | .keyless _ _ | .unseparated _ => True

/-- A name without its closing quote, or without a colon behind it. -/
def Key.Breaks (key : Key) : Prop :=
  Exists fun spelling : Spelling => key.name.lexeme = .text spelling ∧
    (spelling.ending ≠ .closed ∨ key.next.lexeme ≠ .colon)

/-- The grammar is violated somewhere in a node.  Nothing is said about where,
because every reader that accepts a node has looked at all of it. -/
inductive Node.Breaks : Node -> Prop
  | leaf {token : Token} (never : forall form, ¬ token.Holds form) : Breaks (.leaf token)
  | arrayEnding {start : Token} {items : List Node} {ending : ArrayEnd}
      (broken : ending.Breaks) : Breaks (.array start items ending)
  | item {start : Token} {items : List Node} {ending : ArrayEnd} {item : Node}
      (listed : item ∈ items) (broken : Breaks item) : Breaks (.array start items ending)
  | objectEnding {start : Token} {members : List (Key × Node)} {ending : ObjectEnd}
      (broken : ending.Breaks) : Breaks (.object start members ending)
  | key {start : Token} {members : List (Key × Node)} {ending : ObjectEnd} {key : Key}
      {node : Node} (listed : (key, node) ∈ members) (broken : key.Breaks) :
      Breaks (.object start members ending)
  | member {start : Token} {members : List (Key × Node)} {ending : ObjectEnd} {key : Key}
      {node : Node} (listed : (key, node) ∈ members) (broken : Breaks node) :
      Breaks (.object start members ending)

theorem Token.holds_unique {token : Token} {first second : Form} (left : token.Holds first)
    (right : token.Holds second) : first = second := by
  cases first <;> cases second <;> simp_all [Token.Holds]

theorem Key.holds_unique {key : Key} {first second : List Piece} (left : key.Holds first)
    (right : key.Holds second) : first = second := by
  have same : Lexeme.closedText first = Lexeme.closedText second := left.1.symm.trans right.1
  cases same
  rfl

mutual

/-- A node holds at most one form. -/
theorem Node.holds_unique {node : Node} {first second : Form} :
    node.Holds first -> node.Holds second -> first = second
  | .leaf left, .leaf right => Token.holds_unique left right
  | .array left, .array right => by rw [Node.holdAll_unique left right]
  | .object left, .object right => by rw [Node.holdMembers_unique left right]

theorem Node.holdAll_unique {items : List Node} {first second : List Form} :
    Node.HoldAll items first -> Node.HoldAll items second -> first = second
  | .nil, .nil => rfl
  | .cons left lefts, .cons right rights => by
      rw [Node.holds_unique left right, Node.holdAll_unique lefts rights]

theorem Node.holdMembers_unique {members : List (Key × Node)}
    {first second : List (List Piece × Form)} :
    Node.HoldMembers members first -> Node.HoldMembers members second -> first = second
  | .nil, .nil => rfl
  | .cons leftName left lefts, .cons rightName right rights => by
      rw [Key.holds_unique leftName rightName, Node.holds_unique left right,
        Node.holdMembers_unique lefts rights]

end

theorem Node.HoldAll.append {items later : List Node} {forms laterForms : List Form}
    (first : Node.HoldAll items forms) (second : Node.HoldAll later laterForms) :
    Node.HoldAll (items ++ later) (forms ++ laterForms) := by
  match first with
  | .nil => exact second
  | .cons head rest => exact .cons head (rest.append second)

theorem Node.HoldMembers.append {members later : List (Key × Node)}
    {forms laterForms : List (List Piece × Form)} (first : Node.HoldMembers members forms)
    (second : Node.HoldMembers later laterForms) :
    Node.HoldMembers (members ++ later) (forms ++ laterForms) := by
  match first with
  | .nil => exact second
  | .cons named head rest => exact .cons named head (rest.append second)

end Json
end RepoInspector
