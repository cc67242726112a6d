import RepoInspector.Model.MergeMethod
import RepoInspector.Proofs.Model.Members

namespace RepoInspector
namespace Model

open Json
open Record

/-!
# What merge methods are

A merge method is read from tokens when a document holds nothing else, and
from a value otherwise.  Both accept the name of a method, and an object whose
only member has that name and is null.
-/

/-- A form that denotes a merge method. -/
inductive IsMergeMethod : Form -> MergeMethod -> Prop
  | name {pieces : List Piece} {method : MergeMethod}
      (denoted : Piece.denoted? pieces = some method.name) : IsMergeMethod (.text pieces) method
  | entry {pieces : List Piece} {method : MergeMethod}
      (denoted : Piece.denoted? pieces = some method.name) :
      IsMergeMethod (.object [(pieces, .null)]) method

namespace MergeMethod

theorem ofName_iff {name : String} {method : MergeMethod} :
    ofName name = .ok method ↔ name = method.name := by
  constructor
  · intro accepted
    unfold ofName at accepted
    split at accepted
    case h_1 found isFound =>
      cases accepted
      have named := List.find?_some
        (show all.find? (fun method => method.name = name) = some method from isFound)
      exact (of_decide_eq_true named).symm
    case h_2 => cases accepted
  · rintro rfl
    cases method <;> rfl

theorem ofSpelling_iff {token : Token} {spelling : Spelling} {method : MergeMethod} :
    ofSpelling token spelling = .ok method ↔
      Exists fun pieces => spelling = ⟨pieces, .closed⟩ ∧
        Piece.denoted? pieces = some method.name := by
  rw [ofSpelling, bind_eq_ok_iff]
  constructor
  · intro given
    rcases given with ⟨name, isRead, isMethod⟩
    rcases spelling with ⟨pieces, ending⟩
    by_cases closed : ending = .closed
    · subst closed
      cases ofName_iff.mp (Codec.located_eq_ok_iff.mp isMethod)
      exact ⟨pieces, rfl, (Spelling.read_closed pieces _).mp isRead⟩
    · exact absurd isRead (Spelling.read_open closed name)
  · intro given
    rcases given with ⟨pieces, rfl, denoted⟩
    exact ⟨method.name, (Spelling.read_closed pieces _).mpr denoted,
      Codec.located_eq_ok_iff.mpr (ofName_iff.mpr rfl)⟩

theorem ofKey_iff {token : Token} {method : MergeMethod} :
    ofKey token = .ok method ↔
      Exists fun pieces => token.lexeme = .closedText pieces ∧
        Piece.denoted? pieces = some method.name := by
  rcases token with ⟨lexeme, start, stop⟩
  cases lexeme with
  | text spelling =>
      refine ofSpelling_iff.trans (exists_congr fun pieces => and_congr_left fun _ => ?_)
      exact (Lexeme.text.injEq spelling ⟨pieces, .closed⟩).to_iff.symm
  | comma | colon | arrayStart | arrayEnd | objectStart | objectEnd | null | boolean | number
  | malformed | stray | finish =>
      refine ⟨nofun, ?_⟩
      intro given
      rcases given with ⟨pieces, same, _⟩
      cases same

theorem nothing_iff {token : Token} : nothing token = .ok () ↔ token.lexeme = .null := by
  constructor
  · intro accepted
    unfold nothing at accepted
    split at accepted
    case h_1 isNull => exact isNull
    case h_2 => cases accepted
    case h_3 => cases accepted
    case h_4 =>
      rcases bind_eq_ok_iff.mp accepted with ⟨value, _, refused⟩
      cases refused
  · intro isNull
    simp only [nothing, isNull]

theorem colon_iff {token : Token} : colon token = .ok () ↔ token.lexeme = .colon := by
  constructor
  · intro accepted
    unfold colon at accepted
    split at accepted
    case h_1 isColon => exact isColon
    case h_2 => cases accepted
  · intro isColon
    simp only [colon, isColon]

theorem close_iff {token : Token} : close token = .ok () ↔ token.lexeme = .objectEnd := by
  constructor
  · intro accepted
    unfold close at accepted
    split at accepted
    case h_1 isEnd => exact isEnd
    case h_2 failure _ => cases failure <;> cases accepted
    case h_3 => cases accepted
  · intro isEnd
    simp only [close, isEnd]

theorem atEnd_iff {token : Token} : atEnd token = .ok () ↔ token.lexeme = .finish none := by
  constructor
  · intro accepted
    unfold atEnd at accepted
    split at accepted
    case h_1 isFinish => exact isFinish
    case h_2 => cases accepted
    case h_3 => cases accepted
  · intro isFinish
    simp only [atEnd, isFinish]

/-- A token that is not the last one was in the list. -/
theorem next_eq {last token : Token} {tokens rest : List Token}
    (taken : next last tokens = (token, rest)) (goesOn : token.lexeme.isLast = false)
    (isLast : last.lexeme.isLast = true) : tokens = token :: rest := by
  cases tokens with
  | nil =>
      cases taken
      rw [goesOn] at isLast
      cases isLast
  | cons first tokens => cases taken; rfl

/-- A method that is read takes just the tokens that spell it. -/
theorem ofTokens_ok {last : Token} {tokens rest : List Token} {method : MergeMethod}
    (isLast : last.lexeme.isLast = true)
    (accepted : ofTokens last tokens = .ok (method, rest)) :
    Exists fun form => IsMergeMethod form method ∧ Exists fun taken : List Token =>
      tokens = taken ++ rest ∧ taken.map Token.lexeme = form.lexemes := by
  unfold ofTokens at accepted
  rcases taken : next last tokens with ⟨first, later⟩
  simp only [taken] at accepted
  split at accepted
  case h_1 spelling isText =>
    rcases bind_eq_ok_iff.mp accepted with ⟨found, isMethod, same⟩
    cases same
    rcases ofSpelling_iff.mp isMethod with ⟨pieces, rfl, denoted⟩
    refine ⟨.text pieces, .name denoted, [first], ?_, ?_⟩
    · exact next_eq taken (by rw [isText]; rfl) isLast
    · rw [List.map_singleton, isText]; rfl
  case h_2 isStart =>
    rcases takenName : next last later with ⟨name, afterName⟩
    rcases takenColon : next last afterName with ⟨after, afterColon⟩
    rcases takenValue : next last afterColon with ⟨value, afterValue⟩
    rcases takenClosing : next last afterValue with ⟨closing, afterClosing⟩
    simp only [takenName, takenColon, takenValue, takenClosing] at accepted
    rcases bind_eq_ok_iff.mp accepted with ⟨found, isKey, accepted⟩
    rcases bind_eq_ok_iff.mp accepted with ⟨_, isColon, accepted⟩
    rcases bind_eq_ok_iff.mp accepted with ⟨_, isNull, accepted⟩
    rcases bind_eq_ok_iff.mp accepted with ⟨_, isEnd, same⟩
    cases same
    rcases ofKey_iff.mp isKey with ⟨pieces, isName, denoted⟩
    have isColon := colon_iff.mp isColon
    have isNull := nothing_iff.mp isNull
    have isEnd := close_iff.mp isEnd
    refine ⟨.object [(pieces, .null)], .entry denoted, [first, name, after, value, closing], ?_, ?_⟩
    · rw [next_eq taken (by rw [isStart]; rfl) isLast,
        next_eq takenName (by rw [isName]; rfl) isLast,
        next_eq takenColon (by rw [isColon]; rfl) isLast,
        next_eq takenValue (by rw [isNull]; rfl) isLast,
        next_eq takenClosing (by rw [isEnd]; rfl) isLast]
      rfl
    · simp only [List.map_cons, List.map_nil, isStart, isName, isColon, isNull, isEnd]
      rfl
  case h_3 => cases accepted

/-- The tokens that spell a method are read. -/
theorem ofTokens_spelled {last : Token} {taken rest : List Token} {form : Form}
    {method : MergeMethod} (isMethod : IsMergeMethod form method)
    (spelled : taken.map Token.lexeme = form.lexemes) :
    ofTokens last (taken ++ rest) = .ok (method, rest) := by
  cases isMethod with
  | @name pieces _ denoted =>
      rcases List.map_eq_cons_iff.mp spelled with ⟨first, others, rfl, isText, empty⟩
      cases List.map_eq_nil_iff.mp empty
      have isMethod : ofSpelling first ⟨pieces, .closed⟩ = .ok method :=
        ofSpelling_iff.mpr ⟨pieces, rfl, denoted⟩
      simp only [ofTokens, List.cons_append, List.nil_append, next, isText, isMethod, ok_bind]
  | @entry pieces _ denoted =>
      rcases List.map_eq_cons_iff.mp spelled with ⟨first, others, rfl, isStart, spelled⟩
      rcases List.map_eq_cons_iff.mp spelled with ⟨name, others, rfl, isName, spelled⟩
      rcases List.map_eq_cons_iff.mp spelled with ⟨after, others, rfl, isColon, spelled⟩
      rcases List.map_eq_cons_iff.mp spelled with ⟨value, others, rfl, isNull, spelled⟩
      rcases List.map_eq_cons_iff.mp spelled with ⟨closing, others, rfl, isEnd, empty⟩
      cases List.map_eq_nil_iff.mp empty
      simp only [ofTokens, List.cons_append, List.nil_append, next, isStart,
        ofKey_iff.mpr ⟨pieces, isName, denoted⟩, colon_iff.mpr isColon, nothing_iff.mpr isNull,
        close_iff.mpr isEnd, ok_bind]

/-- No lexeme of a method ends a document. -/
theorem goesOn_of_isMergeMethod {form : Form} {method : MergeMethod}
    (isMethod : IsMergeMethod form method) : ∀ lexeme ∈ form.lexemes, lexeme.isLast = false := by
  cases isMethod with
  | name => exact List.forall_mem_singleton.mpr rfl
  | entry =>
      intro lexeme listed
      simp only [Form.lexemes, Form.memberLexemes, Form.laterMemberLexemes, List.cons_append,
        List.nil_append, List.mem_cons, List.not_mem_nil, or_false] at listed
      rcases listed with rfl | rfl | rfl | rfl | rfl <;> rfl

/-- What is read byte by byte is what is read with all bytes in hand. -/
theorem ofFeed_eq (supply : Supply) : ofFeed supply = ofDocument supply := by
  rw [ofFeed, Feed.ofSupply_tokens, ofDocument]

theorem decode_stream (supply : Supply) :
    decode .stream supply = reported .stream supply (ofDocument supply) := by
  rw [decode, ofFeed_eq]
  rfl

/-- A document that is read as a merge method has a form that denotes it. -/
theorem form_of_ofDocument {supply : Supply} {method : MergeMethod}
    (accepted : ofDocument supply = .ok method) :
    supply.failure = none ∧ Exists fun form : Form =>
      form.Written supply.bytes ∧ IsMergeMethod form method := by
  simp only [ofDocument, ofSupply] at accepted
  split at accepted
  case h_2 => cases accepted
  case h_1 found isFound =>
    cases accepted
    rcases bind_eq_ok_iff.mp isFound with ⟨⟨other, rest⟩, isMethod, done⟩
    rcases bind_eq_ok_iff.mp done with ⟨_, ended, same⟩
    cases same
    rcases ofTokens_ok rfl isMethod with ⟨form, isForm, taken, split, spelled⟩
    rcases Token.scan_ends supply.bytes.length 0 supply.failure supply.bytes with
      ⟨before, token, scanned, isLast⟩
    cases rest with
    | nil =>
        -- A document is never at its end without a token that says so.
        rw [List.append_nil] at split
        have listed : token ∈ taken := by
          rw [← split, Supply.tokens, scanned]
          exact List.mem_append_right before List.mem_cons_self
        have goesOn := goesOn_of_isMergeMethod isForm token.lexeme
          (spelled ▸ List.mem_map_of_mem listed)
        rw [goesOn] at isLast
        cases isLast
    | cons finish rest =>
        have isFinish : finish.lexeme = .finish none := atEnd_iff.mp ended
        have nothing_behind := Token.scan_last split (by rw [isFinish]; rfl)
        rw [nothing_behind] at split
        have whole : (Token.scan supply.bytes.length supply.failure 0 supply.bytes).map
            Token.lexeme = form.lexemes ++ [.finish none] := by
          rw [Supply.tokens] at split
          rw [split, List.map_append, spelled, List.map_singleton, isFinish]
        rcases Token.layout_of_scan whole with ⟨complete, written⟩
        exact ⟨complete, form, written, isForm⟩

/-- A document holds a merge method when its form denotes one. -/
theorem ofDocument_iff {supply : Supply} {method : MergeMethod} :
    ofDocument supply = .ok method ↔
      supply.failure = none ∧ Exists fun form : Form =>
        form.Written supply.bytes ∧ IsMergeMethod form method := by
  constructor
  · exact form_of_ofDocument
  · intro given
    rcases given with ⟨complete, form, written, isMethod⟩
    rcases supply.placed_of_written complete written with
      ⟨taken, finish, _, spelled, split, isFinish⟩
    simp only [ofDocument, ofSupply, split, ofTokens_spelled isMethod spelled, ok_bind, next]
    rw [atEnd_iff.mpr isFinish]
    rfl

/-!
## Values
-/

section Singletons

variable {ι κ : Type}

/-- Members that have one item under one name and none under others are a
single member. -/
theorem single_of_named {name : String} {item : ι} {members : List (String × κ)}
    {relation : ι -> κ -> Prop}
    (each : forall other, List.Forall₂ relation (named other [(name, item)])
      (named other members)) :
    Exists fun found => members = [(name, found)] ∧ relation item found := by
  cases members with
  | nil =>
      have one := each name
      rw [named_cons_self] at one
      cases one
  | cons first members =>
      rcases first with ⟨other, found⟩
      have known : name = other := by
        apply Decidable.byContradiction
        intro different
        have one := each other
        rw [named_cons_of_ne different, named_cons_self] at one
        cases one
      cases known
      have one := each name
      rw [named_cons_self, named_cons_self, named_nil] at one
      rcases List.forall₂_cons.mp one with ⟨related, rest⟩
      refine ⟨found, ?_, related⟩
      rw [List.cons.injEq]
      refine ⟨rfl, List.eq_nil_iff_forall_not_mem.mpr fun later listed => ?_⟩
      have under := each later.1
      by_cases same : name = later.1
      · have isNamed := mem_named.mpr (show (name, later.2) ∈ members from same ▸ listed)
        rw [List.forall₂_nil_left_iff.mp rest] at isNamed
        cases isNamed
      · rw [named_cons_of_ne same, named_cons_of_ne same, named_nil] at under
        have isNamed := mem_named.mpr (show (later.1, later.2) ∈ members from listed)
        rw [List.forall₂_nil_left_iff.mp under] at isNamed
        cases isNamed

end Singletons

/-- A decoded value is the method that its form denotes. -/
theorem ofValue_iff {form : Form} {value : Value} {method : MergeMethod}
    (tells : form.Tells value) : ofValue value = .ok method ↔ IsMergeMethod form method := by
  cases tells with
  | null | boolean | number | array => exact ⟨nofun, nofun⟩
  | @text pieces s denoted =>
      refine ofName_iff.trans ⟨fun same => .name (same ▸ denoted), fun isMethod => ?_⟩
      cases isMethod with
      | name also => exact Option.some.inj (denoted.symm.trans also)
  | @object members entries values keyed each =>
      constructor
      · intro accepted
        rcases values with _ | ⟨⟨name, value⟩, _ | ⟨second, values⟩⟩
        · cases accepted
        · rcases bind_eq_ok_iff.mp accepted with ⟨found, isFound, isNull⟩
          have single := single_of_named fun other => (each other).flip
          rcases single with ⟨form, rfl, told⟩
          cases keyed with
          | cons denoted rest =>
              cases rest
              cases ofName_iff.mp isFound
              cases told with
              | null => cases isNull; exact .entry denoted
              | boolean | number | text | array | object => cases isNull
        · cases accepted
      · intro isMethod
        cases isMethod with
        | entry denoted =>
            cases keyed with
            | cons also rest =>
                cases rest
                cases denoted.symm.trans also
                rcases single_of_named each with ⟨value, rfl, told⟩
                cases told
                exact bind_eq_ok_iff.mpr ⟨method, ofName_iff.mpr rfl, rfl⟩

theorem readsForms : Codec.ReadsForms decode IsMergeMethod where
  text := reported_eq_ok_iff.trans (ofDocument_iff.trans (and_iff_right rfl))
  stream := by
    intro text method
    rw [decode_stream, reported_eq_ok_iff]
    exact ofDocument_iff.trans (and_iff_right rfl)
  settled := reported_eq_ok_iff.trans
    ((settledDocument_iff fun tells _ => ofValue_iff tells).trans (and_iff_right rfl))

end MergeMethod
end Model
end RepoInspector
