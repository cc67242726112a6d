import RepoInspector.Proofs.Json.TokenScan

namespace RepoInspector
namespace Json

/-!
# Where the tokens of a document stand

The grammar says which lexemes a document spells.  Reports also say where, so
here the grammar is told with places: a token stands where its spelling does,
and its two counts are the bytes before its first and after its last one.
The scanner gives just these tokens.
-/

/-- Tokens that are spelled one after the other from a place on, with blanks
around them. -/
inductive Placed : Nat -> List Token -> List UInt8 -> Prop
  | nil {start : Nat} : Placed start [] []
  | blank {start : Nat} {byte : UInt8} {tokens : List Token} {bytes : List UInt8}
      (isBlank : isBlankByte byte = true) (rest : Placed (start + 1) tokens bytes) :
      Placed start tokens (byte :: bytes)
  | token {start : Nat} {lexeme : Lexeme} {spelled : List UInt8} {tokens : List Token}
      {bytes : List UInt8} (first : lexeme.Spelled spelled)
      (rest : Placed (start + spelled.length) tokens bytes) :
      Placed start (⟨lexeme, start, start + spelled.length⟩ :: tokens) (spelled ++ bytes)

/-- What is laid out has its places. -/
theorem Layout.placed {lexemes : List Lexeme} {bytes : List UInt8}
    (layout : Layout lexemes bytes) (start : Nat) :
    Exists fun tokens => Placed start tokens bytes ∧ tokens.map Token.lexeme = lexemes := by
  induction layout generalizing start with
  | nil => exact ⟨[], .nil, rfl⟩
  | blank isBlank _ inductionHypothesis =>
      rcases inductionHypothesis (start + 1) with ⟨tokens, placed, spelled⟩
      exact ⟨tokens, .blank isBlank placed, spelled⟩
  | @lexeme lexeme bytes lexemes others first _ inductionHypothesis =>
      rcases inductionHypothesis (start + bytes.length) with ⟨tokens, placed, spelled⟩
      exact ⟨⟨lexeme, start, start + bytes.length⟩ :: tokens, .token first placed,
        congrArg (lexeme :: ·) spelled⟩

/-- The scan of bytes that begin with a spelled lexeme. -/
theorem Token.scan_spelled {lexeme : Lexeme} {spelled : List UInt8}
    (spells : lexeme.Spelled spelled) {rest : List UInt8} (ends : lexeme.Ends rest)
    (limit start : Nat) :
    Token.scan limit none start (spelled ++ rest) =
      ⟨lexeme, start, start + spelled.length⟩ ::
        Token.scan limit none (start + spelled.length) rest := by
  rcases Lexeme.scan_append limit start spells ends with
    ⟨byte, others, split, notBlank, found, goesOn⟩
  have width : spelled.length = others.length + 1 := by rw [split, List.length_cons]
  have further : start + 1 + (spelled.length - 1) = start + spelled.length := by omega
  have behind : (others ++ rest).drop (spelled.length - 1) = rest := by
    rw [width, Nat.add_sub_cancel, List.drop_left]
  rw [split] at found
  rw [split, List.cons_append, Token.scan_cons notBlank found, goesOn,
    if_neg Bool.false_ne_true, ← split, further, behind]

namespace Placed

theorem layout {start : Nat} {tokens : List Token} {bytes : List UInt8}
    (placed : Placed start tokens bytes) : Layout (tokens.map Token.lexeme) bytes := by
  induction placed with
  | nil => exact .nil
  | blank isBlank _ inductionHypothesis => exact .blank isBlank inductionHypothesis
  | token first _ inductionHypothesis => exact .lexeme first inductionHypothesis

/-- What stands behind a separated lexeme ends it. -/
theorem ends {start : Nat} {lexeme : Lexeme} {tokens : List Token} {bytes : List UInt8}
    (placed : Placed start tokens bytes)
    (separated : Separated (lexeme :: tokens.map Token.lexeme)) :
    lexeme.Ends bytes ∧ Separated (tokens.map Token.lexeme) := by
  cases lexeme with
  | number numeral => exact ⟨(placed.layout.stops separated.1).ended numeral, separated.2⟩
  | comma | colon | arrayStart | arrayEnd | objectStart | objectEnd | null | boolean
  | text | malformed | stray | finish => exact ⟨trivial, separated⟩

theorem bytes_ne_nil {start : Nat} {tokens : List Token} {bytes : List UInt8}
    (placed : Placed start tokens bytes) (someToken : tokens ≠ []) :
    bytes ≠ [] := by
  cases placed with
  | nil => exact absurd rfl someToken
  | blank => exact List.cons_ne_nil _ _
  | token first =>
      rcases first.first with ⟨byte, others, rfl, _⟩
      exact List.cons_ne_nil _ _

/-- Placed tokens are scanned where they stand, and the scan goes on behind them. -/
theorem scan_front {start : Nat} {tokens : List Token} {bytes : List UInt8}
    (placed : Placed start tokens bytes)
    (separated : Separated (tokens.map Token.lexeme)) {rest : List UInt8}
    (ends : ∀ last ∈ tokens.getLast?, last.lexeme.Ends rest) (limit : Nat) :
    Token.scan limit none start (bytes ++ rest) =
      tokens ++ Token.scan limit none (start + bytes.length) rest := by
  induction placed with
  | nil => rfl
  | @blank start byte tokens bytes isBlank _ inductionHypothesis =>
      rw [List.cons_append, Token.scan, if_pos isBlank, inductionHypothesis separated ends,
        List.length_cons, Nat.add_assoc, Nat.add_comm 1]
  | @token start lexeme spelled tokens bytes first behind inductionHypothesis =>
      have after := behind.ends separated
      have endsHere : lexeme.Ends (bytes ++ rest) := by
        cases bytes with
        | nil =>
            cases tokens with
            | nil => exact ends _ rfl
            | cons token tokens => exact absurd rfl (behind.bytes_ne_nil (List.cons_ne_nil _ _))
        | cons byte bytes => exact after.1.of_head? rfl
      have endsBehind : ∀ last ∈ tokens.getLast?, last.lexeme.Ends rest :=
        by
        intro last isLast
        cases tokens with
        | nil => cases isLast
        | cons token tokens => exact ends last isLast
      rw [List.append_assoc, Token.scan_spelled first endsHere,
        inductionHypothesis after.2 endsBehind, List.length_append, ← Nat.add_assoc]
      rfl

/-- Placed tokens are scanned where they stand. -/
theorem scan {start : Nat} {tokens : List Token} {bytes : List UInt8}
    (placed : Placed start tokens bytes) (separated : Separated (tokens.map Token.lexeme))
    (limit : Nat) :
    Token.scan limit none start bytes =
      tokens ++ [⟨.finish none, start + bytes.length, start + bytes.length⟩] := by
  have scanned := placed.scan_front separated (fun last _ => .nil last.lexeme) limit
  rw [List.append_nil, Token.scan] at scanned
  exact scanned

/-- Tokens in two parts are spelled by bytes in two parts. -/
theorem append_left {start : Nat} {first second : List Token} {bytes : List UInt8}
    (placed : Placed start (first ++ second) bytes) :
    Exists fun front => Exists fun back => bytes = front ++ back ∧
      Placed start first front ∧ Placed (start + front.length) second back := by
  generalize whole : first ++ second = tokens at placed
  induction placed generalizing first with
  | nil =>
      rcases List.append_eq_nil_iff.mp whole with ⟨rfl, rfl⟩
      exact ⟨[], [], rfl, .nil, .nil⟩
  | @blank start byte tokens bytes isBlank rest inductionHypothesis =>
      rcases inductionHypothesis whole with ⟨front, back, rfl, before, after⟩
      refine ⟨byte :: front, back, rfl, .blank isBlank before, ?_⟩
      rwa [List.length_cons, Nat.add_comm front.length, ← Nat.add_assoc]
  | @token start lexeme spelled tokens bytes head rest inductionHypothesis =>
      cases first with
      | nil =>
          refine ⟨[], spelled ++ bytes, rfl, .nil, ?_⟩
          rw [← List.nil_append second, whole]
          exact .token head rest
      | cons token first =>
          rcases List.cons.inj whole with ⟨rfl, others⟩
          rcases inductionHypothesis others with ⟨front, back, rfl, before, after⟩
          refine ⟨spelled ++ front, back, (List.append_assoc _ _ _).symm, .token head before, ?_⟩
          rwa [List.length_append, ← Nat.add_assoc]

theorem blanks {start : Nat} {bytes : List UInt8} (placed : Placed start [] bytes) :
    ∀ byte ∈ bytes, isBlankByte byte = true := by
  generalize noneLeft : ([] : List Token) = tokens at placed
  induction placed with
  | nil => exact fun _ => (nomatch ·)
  | blank isBlank _ inductionHypothesis =>
      exact List.forall_mem_cons.mpr ⟨isBlank, inductionHypothesis noneLeft⟩
  | token => cases noneLeft

/-- A token that is placed alone has blanks on both sides. -/
theorem single {start : Nat} {token : Token} {bytes : List UInt8}
    (placed : Placed start [token] bytes) :
    Exists fun front => Exists fun spelled => Exists fun blanks =>
      bytes = front ++ (spelled ++ blanks) ∧ token.lexeme.Spelled spelled ∧
        token.start = start + front.length ∧ token.stop = token.start + spelled.length ∧
        ∀ byte ∈ blanks, isBlankByte byte = true := by
  generalize alone : [token] = tokens at placed
  induction placed with
  | nil => cases alone
  | @blank start byte tokens bytes _ _ inductionHypothesis =>
      rcases inductionHypothesis alone with ⟨front, spelled, blanks, rfl, spells, begins, rest⟩
      refine ⟨byte :: front, spelled, blanks, rfl, spells, ?_, rest⟩
      rw [begins, List.length_cons, Nat.add_assoc, Nat.add_comm 1]
  | @token start lexeme spelled tokens bytes first rest =>
      rcases List.cons.inj alone with ⟨rfl, rfl⟩
      exact ⟨[], spelled, bytes, rfl, first, rfl, rfl, rest.blanks⟩

end Placed

/-- The tokens of a document in which a form is written, with their places. -/
theorem Supply.placed_of_written (supply : Supply) {form : Form}
    (complete : supply.failure = none) (written : form.Written supply.bytes) :
    Exists fun tokens : List Token => Exists fun finish : Token =>
      Placed 0 tokens supply.bytes ∧ tokens.map Token.lexeme = form.lexemes ∧
        supply.tokens = tokens ++ [finish] ∧ finish.lexeme = .finish none := by
  have separated : Separated form.lexemes := by
    have closed := form.separated_lexemes [] trivial trivial
    rwa [List.append_nil] at closed
  rcases Layout.placed written 0 with ⟨tokens, placed, spelled⟩
  have scanned := placed.scan (by rw [spelled]; exact separated) supply.bytes.length
  rw [← complete] at scanned
  exact ⟨tokens, _, placed, spelled, scanned, congrArg Lexeme.finish complete⟩

end Json
end RepoInspector
