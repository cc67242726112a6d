import RepoInspector.Proofs.Json.Faults

namespace RepoInspector
namespace Json

/-!
# The faults of any supply

A fault lies in what a document says, or it lies in how its supply ends: a
supply that comes to its end ends too early, and one that fails is reported with
the reason of that failure.  Which of the two can be told from the cause, and a
supply of one kind never gives the faults of the other.
-/

/-- The cause lies in what was supplied: in its grammar or in its data. -/
def Cause.OfContent (cause : Cause) : Prop :=
  cause.category = .grammar ∨ cause.category = .data

/-- The cause lies in what was supplied, or in how the supply ended. -/
def Cause.Due (failure : Option String) (cause : Cause) : Prop :=
  cause.OfContent ∨
    match failure with
    | none => cause.category = .ended
    | some reason => cause = .failure reason

theorem Cause.not_ofContent_failure (reason : String) : ¬ (failure reason).OfContent := nofun

/-- A lexeme of a document whose supply ends so. -/
def Lexeme.Due (failure : Option String) : Lexeme -> Prop
  | .malformed read pass => read.cause.Due failure ∧ pass.cause.Due failure
  | .text spelling => forall other, spelling.ending = .cut other -> other = failure
  | .finish other => other = failure
  | _ => True

def Token.Due (failure : Option String) (token : Token) : Prop := token.lexeme.Due failure

variable {failure : Option String}

/-- Of a supply that ends normally, what ends too early is due. -/
theorem due_endFault {cause : Cause} (due : cause.Due none) (limit : Nat) :
    (endFault cause limit failure).cause.Due failure := by
  cases failure with
  | none => exact due
  | some reason => exact .inr rfl

/-!
## Tokens
-/

namespace Spelling

variable {limit : Nat} {ending : SpellingEnd}

theorem scan_cut {bytes : List UInt8} {other : Option String}
    (cut : (scan failure bytes).ending = .cut other) : other = failure := by
  fun_induction scan failure bytes with
  | case1 | case3 | case6 =>
      cases cut
      rfl
  | case2 | case5 | case8 | case9 => cases cut
  | case4 | case7 | case10 =>
      rename_i inductionHypothesis
      exact inductionHypothesis cut

theorem due_cutFault (limit : Nat) (failure : Option String) :
    (cutFault limit failure).cause.Due failure := by
  cases failure with
  | none | some => exact .inr rfl

theorem passEnding_due (due : forall other, ending = .cut other -> other = failure)
    (offset : Nat) : Confined (·.cause.Due failure) (passEnding limit offset ending) := by
  cases ending with
  | closed => exact .ok ()
  | control | unknownEscape | unknownUnit => exact .error (.inl (.inl rfl))
  | cut other =>
      cases due other rfl
      exact .error (due_cutFault limit failure)

theorem readEnding_due (due : forall other, ending = .cut other -> other = failure)
    (offset : Nat) : Confined (·.cause.Due failure) (readEnding limit offset ending) := by
  unfold readEnding
  split
  · exact .error (.inl (.inl rfl))
  · exact passEnding_due due offset

theorem due_unpairedEnding (due : forall other, ending = .cut other -> other = failure)
    (offset : Nat) : (unpairedEnding limit offset ending).cause.Due failure := by
  cases ending with
  | closed | control | unknownEscape | unknownUnit => exact .inl (.inl rfl)
  | cut other =>
      cases due other rfl
      exact due_cutFault limit failure

theorem read_due {spelling : Spelling}
    (due : forall other, spelling.ending = .cut other -> other = failure) (limit start : Nat) :
    Confined (·.cause.Due failure) (spelling.read limit start) := by
  refine (bytes_confined (readEnding_due due) (due_unpairedEnding due) (fun _ => .inl (.inl rfl))
    (fun _ => .inl (.inl rfl)) _ _).bind fun encoded _ => ?_
  split
  · exact .ok _
  · exact .error (.inl (.inl rfl))

end Spelling

namespace Lexeme

variable {limit start : Nat}

theorem keyword_due {meaning : Lexeme} (due : meaning.Due failure) (word bytes : List UInt8) :
    (keyword limit failure start word meaning bytes).1.Due failure := by
  unfold keyword
  split
  case h_1 => exact due
  case h_2 => exact ⟨.inl (.inl rfl), .inl (.inl rfl)⟩
  case h_3 => exact ⟨due_endFault (.inr rfl) limit, due_endFault (.inr rfl) limit⟩

theorem numeral_due (bytes : List UInt8) :
    (numeral limit failure start bytes).1.Due failure := by
  unfold numeral
  split
  case h_1 =>
    split
    · exact ⟨due_endFault (.inr rfl) limit, due_endFault (.inr rfl) limit⟩
    · exact trivial
  case h_2 =>
    split
    · exact ⟨due_endFault (.inr rfl) limit, due_endFault (.inl (.inl rfl)) limit⟩
    · exact ⟨.inl (.inl rfl), .inl (.inl rfl)⟩

theorem Spelled.due {lexeme : Lexeme} {spelled : List UInt8} (spells : lexeme.Spelled spelled) :
    lexeme.Due failure := by
  cases spells with
  | text => exact fun _ => nofun
  | comma | colon | arrayStart | arrayEnd | objectStart | objectEnd | null | trueWord | falseWord
  | number => exact trivial

theorem scan_due (limit start : Nat) (byte : UInt8) (bytes : List UInt8) :
    (scan limit failure start byte bytes).1.Due failure := by
  have found := scan_found limit start failure byte bytes
  generalize scan limit failure start byte bytes = result at found
  cases found with
  | sign spells _ => exact spells.due
  | keyword spells _ => exact keyword_due spells.due _ bytes
  | text => exact fun _ => Spelling.scan_cut
  | numeral => exact numeral_due _
  | stray => exact trivial

end Lexeme

namespace Token

variable {token : Token}

theorem scan_due (limit start : Nat) (bytes : List UInt8) :
    ∀ token ∈ Token.scan limit failure start bytes, token.Due failure := by
  fun_induction Token.scan limit failure start bytes with
  | case1 start => exact List.forall_mem_singleton.mpr rfl
  | case2 start byte bytes isBlank inductionHypothesis => exact inductionHypothesis
  | case3 start byte bytes _ found single =>
      exact List.forall_mem_singleton.mpr (Lexeme.scan_due limit start byte bytes)
  | case4 start byte bytes _ found single goesOn inductionHypothesis =>
      exact List.forall_mem_cons.mpr ⟨Lexeme.scan_due limit start byte bytes, inductionHypothesis⟩

theorem Due.unexpected (due : token.Due failure) {ended wrong : Cause}
    (early : ended.category = .ended) (other : wrong.OfContent) :
    (token.unexpected ended wrong).cause.Due failure := by
  rcases token with ⟨lexeme, start, stop⟩
  cases lexeme with
  | finish end_ =>
      cases (due : end_ = failure)
      exact due_endFault (.inr early) start
  | _ => exact .inl other

theorem Due.pass (due : token.Due failure) : Confined (·.cause.Due failure) token.pass := by
  have unexpected : (token.unexpected .endInValue .valueDue).cause.Due failure :=
    due.unexpected rfl (.inl rfl)
  rcases token with ⟨lexeme, start, stop⟩
  cases lexeme with
  | null | boolean | number => exact .ok ()
  | text spelling => exact Spelling.passEnding_due due _
  | malformed read pass => exact .error due.2
  | comma | colon | arrayStart | arrayEnd | objectStart | objectEnd | stray | finish =>
      exact .error unexpected

theorem Due.read (due : token.Due failure) : Confined (·.cause.Due failure) token.read := by
  have unexpected : (token.unexpected .endInValue .valueDue).cause.Due failure :=
    due.unexpected rfl (.inl rfl)
  rcases token with ⟨lexeme, start, stop⟩
  cases lexeme with
  | null | boolean => exact .ok _
  | number numeral =>
      simp only [Token.read]
      split
      case h_1 => exact .ok _
      case h_2 => exact .error (.inl (.inl rfl))
  | text spelling => exact (Spelling.read_due due stop start).bind fun _ _ => .ok _
  | malformed read pass => exact .error due.1
  | comma | colon | arrayStart | arrayEnd | objectStart | objectEnd | stray | finish =>
      exact .error unexpected

end Token

theorem Cause.Structural.ofContent {cause : Cause} (structural : cause.Structural) :
    cause.OfContent := by
  cases cause <;> first | exact .inl rfl | exact structural.elim

theorem Token.due_confined (failure : Option String) :
    TokensConfined (·.cause.Due failure) (Token.Due failure) where
  pass := Due.pass
  read := Due.read
  unexpected due ended structural := due.unexpected ended structural.ofContent
  structural structural := .inl structural.ofContent
  mismatch _ _ _ := .inl (.inr rfl)

/-!
## Documents
-/

namespace Tree

theorem unopened_due {α : Type} {result : Except Fault α}
    (due : Confined (·.cause.Due failure) result) (root : Node) :
    Confined (·.cause.Due failure) (unopened root result) := by
  unfold unopened
  split
  case h_1 fault =>
    refine .error ?_
    unfold Fault.bare
    split <;> exact due fault rfl
  case h_2 => exact due

theorem atEnd_due {tree : Tree} (ended : ∀ token ∈ tree.trailing, token.Due failure) :
    Confined (·.cause.Due failure) tree.atEnd := by
  unfold atEnd
  split
  case h_1 => exact .ok ()
  case h_2 token isToken =>
    have due : token.lexeme.Due failure := ended token isToken
    split
    case h_1 => exact .ok ()
    case h_2 reason isFinish =>
      rw [isFinish] at due
      cases (due : some reason = failure)
      exact .error (.inr rfl)
    case h_3 => exact .error (.inl (.inl rfl))

end Tree

/-- A reader of nodes whose faults are due makes one of documents whose faults are. -/
theorem Supply.read_due {α : Type} {reader : Node -> Except Fault α} (supply : Supply)
    (due : forall node : Node, node.Each (Token.Due supply.failure) ->
      Confined (·.cause.Due supply.failure) (reader node)) :
    Confined (·.cause.Due supply.failure) (supply.tree.read reader) := by
  have ⟨each, ended⟩ := supply.each_tree (Token.scan_due _ _ _)
  refine (Tree.unopened_due (due _ each) _).bind fun _ _ => ?_
  exact (Tree.atEnd_due ended).bind fun _ _ => .ok _

end Json
end RepoInspector
