import RepoInspector.Proofs.Json.ResumedTrees

namespace RepoInspector
namespace Json

/-!
# Reading what goes on

Whoever reads a tree that breaks off does not come to an end.  If the content is
at fault then it is at fault for good: the same reader refuses all that the
document can go on as, and blames the content again.
-/

/-- If the content is at fault in the first result then so it is in the second. -/
def Foretells {α : Type} (first second : Except Fault α) : Prop :=
  forall fault, first = .error fault -> fault.cause.OfContent ->
    Exists fun other => second = .error other ∧ other.cause.OfContent

/-- The first result is a fault, and if the content is at fault then so it is in the second. -/
def BreaksOff {α : Type} (first second : Except Fault α) : Prop :=
  (Exists fun fault => first = .error fault) ∧ Foretells first second

namespace Foretells

variable {α β : Type}

theorem same (result : Except Fault α) : Foretells result result :=
  fun fault failed ofContent => ⟨fault, failed, ofContent⟩

theorem trans {first second third : Except Fault α} (soon : Foretells first second)
    (later : Foretells second third) : Foretells first third := by
  intro fault failed ofContent
  rcases soon fault failed ofContent with ⟨other, alsoFailed, alsoOfContent⟩
  exact later other alsoFailed alsoOfContent

/-- Faults that do not lie in the content foretell nothing. -/
theorem of_not_ofContent {fault : Fault} (other : ¬ fault.cause.OfContent)
    (second : Except Fault α) : Foretells (.error fault) second := by
  intro fault failed ofContent
  cases failed
  exact absurd ofContent other

theorem of_ofContent {fault : Fault} (ofContent : fault.cause.OfContent)
    (first : Except Fault α) : Foretells first (.error fault) :=
  fun _ _ _ => ⟨fault, rfl, ofContent⟩

end Foretells

namespace BreaksOff

variable {α β : Type}

theorem foretells {first second : Except Fault α} (breaks : BreaksOff first second) :
    Foretells first second :=
  breaks.2

theorem of_not_ofContent {fault : Fault} (other : ¬ fault.cause.OfContent)
    (second : Except Fault α) : BreaksOff (.error fault) second :=
  ⟨⟨fault, rfl⟩, .of_not_ofContent other second⟩

theorem of_ofContent (first : Fault) {second : Fault} (ofContent : second.cause.OfContent) :
    BreaksOff (.error first : Except Fault α) (.error second) :=
  ⟨⟨first, rfl⟩, .of_ofContent ofContent _⟩

/-- Two faults of one cause. -/
theorem of_cause {first second : Fault} (same : first.cause = second.cause) :
    BreaksOff (.error first : Except Fault α) (.error second) := by
  refine ⟨⟨first, rfl⟩, fun fault failed ofContent => ⟨second, rfl, ?_⟩⟩
  cases failed
  exact same ▸ ofContent

/-- What comes behind a result that breaks off does not matter. -/
theorem bind {first second : Except Fault α} (breaks : BreaksOff first second)
    (next other : α -> Except Fault β) : BreaksOff (first >>= next) (second >>= other) := by
  rcases breaks with ⟨⟨fault, rfl⟩, foretells⟩
  refine ⟨⟨fault, rfl⟩, fun found failed ofContent => ?_⟩
  cases failed
  rcases foretells fault rfl ofContent with ⟨later, rfl, alsoOfContent⟩
  exact ⟨later, rfl, alsoOfContent⟩

theorem map {first second : Except Fault α} (breaks : BreaksOff first second) (f g : α -> β) :
    BreaksOff (first.map f) (second.map g) := by
  rcases breaks with ⟨⟨fault, rfl⟩, foretells⟩
  refine ⟨⟨fault, rfl⟩, fun found failed ofContent => ?_⟩
  cases failed
  rcases foretells fault rfl ofContent with ⟨later, rfl, alsoOfContent⟩
  exact ⟨later, rfl, alsoOfContent⟩

/-- What is the same for both fails for both, or what comes behind it breaks off. -/
theorem behind (result : Except Fault α) {next other : α -> Except Fault β}
    (later : forall a, result = .ok a -> BreaksOff (next a) (other a)) :
    BreaksOff (result >>= next) (result >>= other) := by
  cases result with
  | error fault => exact of_cause rfl
  | ok a => exact later a rfl

end BreaksOff

theorem not_ofContent_of_ended {cause : Cause} (ended : cause.category = .ended) :
    ¬ cause.OfContent := by
  rintro (grammar | data)
  · rw [ended] at grammar
    cases grammar
  · rw [ended] at data
    cases data

theorem not_ofContent_endFault {cause : Cause} (ended : cause.category = .ended) (limit : Nat)
    (failure : Option String) : ¬ (endFault cause limit failure).cause.OfContent := by
  cases failure with
  | none => exact not_ofContent_of_ended ended
  | some reason => exact Cause.not_ofContent_failure reason

/-!
## Texts
-/

namespace Spelling

variable {α : Type} {limit other : Nat}

theorem not_ofContent_cutFault (limit : Nat) (failure : Option String) :
    ¬ (cutFault limit failure).cause.OfContent := by
  cases failure with
  | none => exact not_ofContent_of_ended rfl
  | some reason => exact Cause.not_ofContent_failure reason

/-- The ends of a text that is open, whatever is said of the place. -/
theorem passEnding_foretells {ending : SpellingEnd} (isOpen : ending ≠ .closed)
    (offset place : Nat) :
    BreaksOff (passEnding limit offset ending) (passEnding other place ending) := by
  cases ending with
  | closed => exact absurd rfl isOpen
  | control | unknownEscape | unknownUnit => exact .of_cause rfl
  | cut failure => exact .of_not_ofContent (not_ofContent_cutFault limit failure) _

theorem readEnding_foretells {ending : SpellingEnd} (isOpen : ending ≠ .closed)
    (offset place : Nat) :
    BreaksOff (readEnding limit offset ending) (readEnding other place ending) := by
  cases ending with
  | closed => exact absurd rfl isOpen
  | control | unknownEscape | unknownUnit => exact .of_cause rfl
  | cut failure => exact .of_not_ofContent (not_ofContent_cutFault limit failure) _

theorem unpairedEnding_foretells {ending : SpellingEnd} (offset place : Nat) :
    BreaksOff (.error (unpairedEnding limit offset ending) : Except Fault α)
      (.error (unpairedEnding other place ending)) := by
  cases ending with
  | closed | control | unknownEscape | unknownUnit => exact .of_cause rfl
  | cut failure => exact .of_not_ofContent (not_ofContent_cutFault limit failure) _

theorem Resumed.tail {piece : Piece} {pieces others : List Piece}
    {ending otherEnding : SpellingEnd}
    (resumed : Resumed ⟨piece :: pieces, ending⟩ ⟨others, otherEnding⟩) :
    Exists fun later => others = piece :: later ∧
      Resumed ⟨pieces, ending⟩ ⟨later, otherEnding⟩ := by
  cases resumed with
  | same => exact ⟨pieces, rfl, .same _⟩
  | cut failure front =>
      rcases front with ⟨later, rfl⟩
      exact ⟨pieces ++ later, rfl, .cut failure (List.prefix_append pieces later)⟩

/-- The bytes of a text that breaks off: a surrogate that stands alone in what was supplied
stands alone for good. -/
theorem bytes_resumed {ending otherEnding : SpellingEnd} (isOpen : ending ≠ .closed)
    {pieces others : List Piece} (resumed : Resumed ⟨pieces, ending⟩ ⟨others, otherEnding⟩)
    (offset place : Nat) :
    BreaksOff (bytes limit ending offset pieces) (bytes other otherEnding place others) := by
  fun_induction bytes limit ending offset pieces generalizing others place with
  | case1 offset =>
      cases resumed with
      | same => exact (readEnding_foretells isOpen offset place).bind _ _
      | cut failure => exact .of_not_ofContent (not_ofContent_cutFault limit failure) _
  | case2 offset byte pieces inductionHypothesis
  | case3 offset byte pieces inductionHypothesis =>
      rcases resumed.tail with ⟨later, rfl, behind⟩
      exact (inductionHypothesis behind _).bind _ _
  | case4 offset code pieces isTrailing =>
      rcases resumed.tail with ⟨later, rfl, _⟩
      rw [bytes.eq_def]
      simp only [if_pos isTrailing]
      exact .of_cause rfl
  | case5 offset code notTrailing isLeading =>
      rcases resumed.tail with ⟨later, rfl, behind⟩
      rw [bytes.eq_def]
      simp only [if_neg notTrailing, if_pos isLeading]
      cases behind with
      | same => exact unpairedEnding_foretells _ _
      | cut failure => exact .of_not_ofContent (not_ofContent_cutFault limit failure) _
  | case6 offset code notTrailing isLeading byte pieces
  | case7 offset code notTrailing isLeading byte pieces =>
      rcases resumed.tail with ⟨later, rfl, behind⟩
      rcases behind.tail with ⟨later, rfl, _⟩
      rw [bytes.eq_def]
      simp only [if_neg notTrailing, if_pos isLeading]
      exact .of_cause rfl
  | case8 offset code notTrailing isLeading second pieces paired inductionHypothesis =>
      rcases resumed.tail with ⟨later, rfl, behind⟩
      rcases behind.tail with ⟨later, rfl, further⟩
      conv => arg 2; rw [bytes.eq_def]
      simp only [if_neg notTrailing, if_pos isLeading, if_pos paired]
      exact (inductionHypothesis further _).bind _ _
  | case9 offset code notTrailing isLeading second pieces unpaired =>
      rcases resumed.tail with ⟨later, rfl, behind⟩
      rcases behind.tail with ⟨later, rfl, _⟩
      rw [bytes.eq_def]
      simp only [if_neg notTrailing, if_pos isLeading, if_neg unpaired]
      exact .of_cause rfl
  | case10 offset code pieces notTrailing notLeading inductionHypothesis =>
      rcases resumed.tail with ⟨later, rfl, behind⟩
      conv => arg 2; rw [bytes.eq_def]
      simp only [if_neg notTrailing, if_neg notLeading]
      exact (inductionHypothesis behind _).bind _ _

theorem pass_resumed {first second : Spelling} (isOpen : first.ending ≠ .closed)
    (resumed : first.Resumed second) (start place : Nat) :
    BreaksOff (first.pass limit start) (second.pass other place) := by
  cases resumed with
  | same => exact passEnding_foretells isOpen _ _
  | cut failure => exact .of_not_ofContent (not_ofContent_cutFault limit failure) _

theorem read_resumed {first second : Spelling} (isOpen : first.ending ≠ .closed)
    (resumed : first.Resumed second) (start place : Nat) :
    BreaksOff (first.read limit start) (second.read other place) :=
  (bytes_resumed isOpen resumed _ _).bind _ _

end Spelling

/-!
## Tokens
-/

namespace Token

variable {first second token : Token}

theorem pass_text (resumed : first.lexeme.TextResumed second.lexeme) :
    BreaksOff first.pass second.pass := by
  rcases first with ⟨firstLexeme, firstStart, firstStop⟩
  rcases second with ⟨secondLexeme, secondStart, secondStop⟩
  cases resumed with
  | intro isOpen resumed => exact Spelling.pass_resumed isOpen resumed _ _

theorem read_text (resumed : first.lexeme.TextResumed second.lexeme) :
    BreaksOff first.read second.read := by
  rcases first with ⟨firstLexeme, firstStart, firstStop⟩
  rcases second with ⟨secondLexeme, secondStart, secondStop⟩
  cases resumed with
  | intro isOpen resumed => exact (Spelling.read_resumed isOpen resumed _ _).bind _ _

theorem pass_failed (failed : token.lexeme.Failed) :
    Exists fun fault => token.pass = .error fault ∧ ¬ fault.cause.OfContent := by
  rcases token with ⟨lexeme, start, stop⟩
  cases lexeme with
  | finish failure => exact ⟨_, rfl, not_ofContent_endFault rfl start failure⟩
  | malformed read pass => exact ⟨pass, rfl, failed.2⟩
  | comma | colon | arrayStart | arrayEnd | objectStart | objectEnd | null | boolean | number
  | text | stray => exact failed.elim

theorem read_failed (failed : token.lexeme.Failed) :
    Exists fun fault => token.read = .error fault ∧ ¬ fault.cause.OfContent := by
  rcases token with ⟨lexeme, start, stop⟩
  cases lexeme with
  | finish failure => exact ⟨_, rfl, not_ofContent_endFault rfl start failure⟩
  | malformed read pass => exact ⟨read, rfl, failed.1⟩
  | comma | colon | arrayStart | arrayEnd | objectStart | objectEnd | null | boolean | number
  | text | stray => exact failed.elim

variable {α : Type}

theorem unexpected_finish {failure : Option String} (isFinish : token.lexeme = .finish failure)
    {ended : Cause} (early : ended.category = .ended) (wrong : Cause) :
    ¬ (token.unexpected ended wrong).cause.OfContent := by
  simp only [unexpected, isFinish]
  exact not_ofContent_endFault early token.start failure

theorem unexpected_scalar (scalar : token.lexeme.Scalar) (ended wrong : Cause) :
    (token.unexpected ended wrong).cause = wrong := by
  rcases token with ⟨lexeme, start, stop⟩
  cases lexeme with
  | finish => exact scalar.elim
  | _ => rfl

/-- Where another token is due, what is begun there is the wrong one for good. -/
theorem unexpected_resumed (resumed : first.lexeme.Resumed second.lexeme) {ended : Cause}
    (early : ended.category = .ended) (wrong : Cause) :
    BreaksOff (.error (first.unexpected ended wrong) : Except Fault α)
      (.error (second.unexpected ended wrong)) := by
  rcases resumed.cases with ⟨failure, isFinish⟩ | ⟨scalar, alsoScalar⟩
  · exact .of_not_ofContent (unexpected_finish isFinish early wrong) _
  · exact .of_cause ((unexpected_scalar scalar ended wrong).trans
      (unexpected_scalar alsoScalar ended wrong).symm)

end Token

namespace Key

variable {first second : Key} {name firstNext secondNext : Token}

theorem read_text (resumed : first.name.lexeme.TextResumed second.name.lexeme) :
    BreaksOff first.read second.read := by
  rcases first with ⟨⟨firstLexeme, firstStart, firstStop⟩, firstNext⟩
  rcases second with ⟨⟨secondLexeme, secondStart, secondStop⟩, secondNext⟩
  cases resumed with
  | intro isOpen resumed => exact Spelling.read_resumed isOpen resumed _ _

theorem colon_resumed (resumed : firstNext.lexeme.Resumed secondNext.lexeme) :
    BreaksOff (Key.colon ⟨name, firstNext⟩) (Key.colon ⟨name, secondNext⟩) := by
  have firstColon : Key.colon ⟨name, firstNext⟩ =
      .error (firstNext.unexpected .endInObject .colonDue) := by
    unfold colon
    split
    · exact absurd ‹_› resumed.ne_colon
    · rfl
  rw [firstColon]
  unfold colon
  split
  case h_1 isColon =>
    rcases resumed.ends (isColon ▸ id) with ⟨failure, isFinish⟩
    exact .of_not_ofContent (Token.unexpected_finish isFinish rfl _) _
  case h_2 => exact Token.unexpected_resumed resumed rfl _

end Key

/-- A scalar that is found where a name is due behind a comma. -/
theorem Lexeme.Scalar.keyless_read {next : Token} (scalar : next.lexeme.Scalar) :
    ObjectEnd.read (.keyless true next) = .error (next.unexpected .endInValue .keyDue) := by
  rcases next with ⟨lexeme, start, stop⟩
  cases lexeme <;> first | rfl | exact scalar.elim

namespace Lexeme.Resumed

variable {first second : Token} (resumed : first.lexeme.Resumed second.lexeme)

include resumed

theorem arrayEnd_read : BreaksOff (ArrayEnd.read (.unseparated first))
    (ArrayEnd.read (.unseparated second)) :=
  Token.unexpected_resumed resumed rfl _

theorem objectEnd_read : BreaksOff (ObjectEnd.read (.unseparated first))
    (ObjectEnd.read (.unseparated second)) :=
  Token.unexpected_resumed resumed rfl _

theorem keyless_read (comma : Bool) : BreaksOff (ObjectEnd.read (.keyless comma first))
    (ObjectEnd.read (.keyless comma second)) := by
  cases comma with
  | false => exact Token.unexpected_resumed resumed rfl _
  | true =>
      rcases resumed.cases with ⟨failure, isFinish⟩ | ⟨scalar, alsoScalar⟩
      · simp only [ObjectEnd.read, isFinish]
        exact .of_not_ofContent (Token.unexpected_finish isFinish rfl _) _
      · rw [scalar.keyless_read, alsoScalar.keyless_read]
        exact Token.unexpected_resumed resumed rfl _

end Lexeme.Resumed

/-!
## Passing over and buffering
-/

namespace Node

theorem MembersResumed.ends_pass {finish : Token} {failure : Option String}
    (isFinish : finish.lexeme = .finish failure) {ending : ObjectEnd}
    (stops : ending = .unseparated finish ∨ Exists fun comma => ending = .keyless comma finish) :
    Exists fun fault => ending.pass = .error fault ∧ ¬ fault.cause.OfContent := by
  rcases stops with rfl | ⟨comma, rfl⟩
  · exact ⟨_, rfl, Token.unexpected_finish isFinish rfl _⟩
  · exact ⟨_, rfl, Token.unexpected_finish isFinish rfl _⟩

theorem MembersResumed.ends_read {finish : Token} {failure : Option String}
    (isFinish : finish.lexeme = .finish failure) {ending : ObjectEnd}
    (stops : ending = .unseparated finish ∨ Exists fun comma => ending = .keyless comma finish) :
    Exists fun fault => ending.read = .error fault ∧ ¬ fault.cause.OfContent := by
  rcases stops with rfl | ⟨comma, rfl⟩
  · exact ⟨_, rfl, Token.unexpected_finish isFinish rfl _⟩
  · cases comma with
    | false => exact ⟨_, rfl, Token.unexpected_finish isFinish rfl _⟩
    | true =>
        simp only [ObjectEnd.read, isFinish]
        exact ⟨_, rfl, Token.unexpected_finish isFinish rfl _⟩

mutual

theorem pass_resumed {first second : Node} (resumed : first.Resumed second) :
    BreaksOff first.pass second.pass := by
  match resumed with
  | .failed failed node =>
      rcases Token.pass_failed failed with ⟨fault, isFault, other⟩
      rw [pass, isFault]
      exact .of_not_ofContent other _
  | .text resumed => exact Token.pass_text resumed
  | .array start inner => exact passItems_resumed inner
  | .object start inner => exact passMembers_resumed inner

theorem passItems_resumed {items others : List Node} {ending otherEnding : ArrayEnd}
    (resumed : ItemsResumed items ending others otherEnding) :
    BreaksOff (passItems items >>= fun _ => ending.pass)
      (passItems others >>= fun _ => otherEnding.pass) := by
  match resumed with
  | .ends isFinish others otherEnding =>
      exact .of_not_ofContent (Token.unexpected_finish isFinish rfl _) _
  | .unseparated resumed => exact Token.unexpected_resumed resumed rfl _
  | .afterComma failed close =>
      rcases Token.pass_failed failed with ⟨fault, isFault, other⟩
      simp only [passItems, pass, isFault]
      exact .of_not_ofContent other _
  | .item resumed others otherEnding => exact ((pass_resumed resumed).bind _ _).bind _ _
  | .later item rest =>
      rw [passItems, passItems, bind_assoc, bind_assoc]
      exact .behind _ fun _ _ => passItems_resumed rest

theorem passMembers_resumed {members others : List (Key × Node)} {ending otherEnding : ObjectEnd}
    (resumed : MembersResumed members ending others otherEnding) :
    BreaksOff (passMembers members >>= fun _ => ending.pass)
      (passMembers others >>= fun _ => otherEnding.pass) := by
  match resumed with
  | .ends isFinish stops others otherEnding =>
      rcases MembersResumed.ends_pass isFinish stops with ⟨fault, isFault, other⟩
      rw [passMembers, ok_bind, isFault]
      exact .of_not_ofContent other _
  | .unseparated resumed => exact Token.unexpected_resumed resumed rfl _
  | .keyless comma resumed => exact Token.unexpected_resumed resumed rfl _
  | .name resumed node other others otherEnding =>
      exact (((Token.pass_text resumed).bind _ _).bind _ _).bind _ _
  | .colon name resumed node other others otherEnding =>
      have named : BreaksOff (Key.pass ⟨name, _⟩) (Key.pass ⟨name, _⟩) :=
        .behind name.pass fun _ _ => Key.colon_resumed resumed
      exact (named.bind _ _).bind _ _
  | .value key resumed others otherEnding =>
      simp only [passMembers, bind_assoc]
      exact .behind _ fun _ _ => (pass_resumed resumed).bind _ _
  | .later (key, node) rest =>
      simp only [passMembers, bind_assoc]
      exact .behind _ fun _ _ => .behind _ fun _ _ => passMembers_resumed rest

end

mutual

theorem buffer_resumed {first second : Node} (resumed : first.Resumed second) (allowance : Nat) :
    BreaksOff (first.buffer allowance) (second.buffer allowance) := by
  match resumed, allowance with
  | .failed failed node, _ =>
      rcases Token.read_failed failed with ⟨fault, isFault, other⟩
      simp only [buffer, isFault]
      exact .of_not_ofContent other _
  | .text resumed, _ =>
      simp only [buffer]
      exact Token.read_text resumed
  | .array start inner, 0 | .object start inner, 0 =>
      simp only [buffer]
      exact .of_cause rfl
  | .array start inner, allowance + 1 =>
      simp only [buffer]
      exact bufferItems_resumed inner allowance _ _
  | .object start inner, allowance + 1 =>
      simp only [buffer]
      exact bufferMembers_resumed inner allowance _ _

theorem bufferItems_resumed {items others : List Node} {ending otherEnding : ArrayEnd}
    (resumed : ItemsResumed items ending others otherEnding) (allowance : Nat)
    (next other : List Value -> Unit -> Except Fault Value) :
    BreaksOff (bufferItems allowance items >>= fun values => ending.read >>= next values)
      (bufferItems allowance others >>= fun values => otherEnding.read >>= other values) := by
  match resumed with
  | .ends isFinish others otherEnding =>
      exact .of_not_ofContent (Token.unexpected_finish isFinish rfl _) _
  | .unseparated resumed => exact resumed.arrayEnd_read.bind (next []) (other [])
  | .afterComma failed close =>
      rcases Token.read_failed failed with ⟨fault, isFault, other⟩
      simp only [bufferItems, buffer, isFault]
      exact .of_not_ofContent other _
  | .item resumed others otherEnding =>
      exact ((buffer_resumed resumed allowance).bind _ _).bind _ _
  | .later item rest =>
      simp only [bufferItems, bind_assoc, ok_bind]
      exact .behind _ fun _ _ => bufferItems_resumed rest allowance _ _

theorem bufferMembers_resumed {members others : List (Key × Node)}
    {ending otherEnding : ObjectEnd}
    (resumed : MembersResumed members ending others otherEnding) (allowance : Nat)
    (next other : List (String × Value) -> Unit -> Except Fault Value) :
    BreaksOff (bufferMembers allowance members >>= fun values => ending.read >>= next values)
      (bufferMembers allowance others >>= fun values => otherEnding.read >>= other values) := by
  match resumed with
  | .ends isFinish stops others otherEnding =>
      rcases MembersResumed.ends_read isFinish stops with ⟨fault, isFault, other⟩
      simp only [bufferMembers, ok_bind, isFault]
      exact .of_not_ofContent other _
  | .unseparated resumed => exact resumed.objectEnd_read.bind (next []) (other [])
  | .keyless comma resumed => exact (resumed.keyless_read comma).bind (next []) (other [])
  | .name resumed node other others otherEnding =>
      exact ((Key.read_text resumed).bind _ _).bind _ _
  | .colon name resumed node other others otherEnding =>
      simp only [bufferMembers, bind_assoc]
      exact .behind (Key.read ⟨name, name⟩) fun _ _ => (Key.colon_resumed resumed).bind _ _
  | .value key resumed others otherEnding =>
      simp only [bufferMembers, bind_assoc]
      exact .behind _ fun _ _ => .behind _ fun _ _ => (buffer_resumed resumed allowance).bind _ _
  | .later (key, node) rest =>
      simp only [bufferMembers, bind_assoc, ok_bind]
      exact .behind _ fun _ _ => .behind _ fun _ _ => .behind _ fun _ _ =>
        bufferMembers_resumed rest allowance _ _

end

end Node

/-!
## Documents
-/

/-- A reader that does not come to the end of what breaks off, and blames the content for good. -/
def Persists {α : Type} (reader : Node -> Except Fault α) : Prop :=
  forall {first second : Node}, first.Resumed second -> BreaksOff (reader first) (reader second)

section Documents

variable {α : Type} {reader : Node -> Except Fault α} (persists : Persists reader)

theorem Fault.cause_bare (fault : Fault) : fault.bare.cause = fault.cause := by
  unfold bare
  split <;> rfl

theorem unopened_error (root : Node) (fault : Fault) : Exists fun other =>
    Tree.unopened root (.error fault : Except Fault α) = .error other ∧
      other.cause = fault.cause := by
  cases root with
  | leaf => exact ⟨fault.bare, rfl, fault.cause_bare⟩
  | array | object => exact ⟨fault, rfl, rfl⟩

/-- How much is open does not change which cause is reported. -/
theorem BreaksOff.unopened {first second : Except Fault α} (breaks : BreaksOff first second)
    (root other : Node) : BreaksOff (Tree.unopened root first) (Tree.unopened other second) := by
  rcases breaks with ⟨⟨fault, rfl⟩, foretells⟩
  rcases unopened_error (α := α) root fault with ⟨found, isFound, sameCause⟩
  rw [isFound]
  refine ⟨⟨found, rfl⟩, fun reported failed ofContent => ?_⟩
  cases failed
  rcases foretells fault rfl (sameCause ▸ ofContent) with ⟨later, rfl, alsoOfContent⟩
  rcases unopened_error (α := α) other later with ⟨again, isAgain, alsoSameCause⟩
  exact ⟨again, isAgain, alsoSameCause.symm ▸ alsoOfContent⟩

/-- Behind the value of a document, what is begun where the supply fails is too much for
good. -/
theorem foretells_atEnd (root : Node) {first second : Token}
    (resumed : first.lexeme.Resumed second.lexeme) :
    Foretells (Tree.atEnd ⟨root, some first⟩) (Tree.atEnd ⟨root, some second⟩) := by
  rcases resumed.cases with ⟨failure, isFinish⟩ | ⟨_, scalar⟩
  · intro fault failed ofContent
    cases failure with
    | none => simp only [Tree.atEnd, isFinish, reduceCtorEq] at failed
    | some reason =>
        simp only [Tree.atEnd, isFinish, Except.error.injEq] at failed
        subst failed
        rcases ofContent with grammar | data
        · cases grammar
        · cases data
  · have trails : Tree.atEnd ⟨root, some second⟩ =
        .error (.placed .trailingCharacters (.after (second.start + 1))) := by
      rcases second with ⟨lexeme, start, stop⟩
      cases lexeme <;> first | rfl | exact scalar.elim
    rw [trails]
    exact .of_ofContent (.inl rfl) _

theorem Foretells.bind {β : Type} (result : Except Fault α) {next other : α -> Except Fault β}
    (later : forall a, Foretells (next a) (other a)) :
    Foretells (result >>= next) (result >>= other) := by
  cases result with
  | error fault => exact .same _
  | ok a => exact later a

include persists

theorem foretells_read {root other : Node} {trailing otherTrailing : Option Token}
    (resumed : (Reading.done root trailing).Resumed (.done other otherTrailing)) :
    Foretells (Tree.read reader ⟨root, trailing⟩) (Tree.read reader ⟨other, otherTrailing⟩) := by
  cases resumed with
  | same => exact .same _
  | broken resumed => exact (((persists resumed).unopened _ _).bind _ _).foretells
  | trailing root resumed =>
      refine .bind _ fun a fault failed ofContent => ?_
      rcases bind_eq_error_iff.mp failed with atEnd | ⟨_, _, accepted⟩
      · rcases foretells_atEnd root resumed fault atEnd ofContent with ⟨later, isLater, again⟩
        exact ⟨later, bind_eq_error_iff.mpr (.inl isLater), again⟩
      · cases accepted

/-- The faults of the content remain when the document goes on by any tokens. -/
theorem foretells_grow {finish : Token} {failure : Option String}
    (isFinish : finish.lexeme = .finish failure) {tokens : List Token} {reading : Reading}
    {root other : Node} {trailing otherTrailing : Option Token}
    (soon : Reading.step finish reading = .done root trailing)
    (later : Reading.grow tokens reading = .done other otherTrailing) :
    Foretells (Tree.read reader ⟨root, trailing⟩) (Tree.read reader ⟨other, otherTrailing⟩) := by
  induction tokens generalizing reading root trailing with
  | nil =>
      rw [Reading.grow_nil] at later
      rw [later, Reading.step] at soon
      cases soon
      exact .same _
  | cons token tokens inductionHypothesis =>
      have isLast : finish.lexeme.isLast = true := by rw [isFinish]; rfl
      rcases Reading.step_last isLast (Reading.step token reading) with ⟨middle, between, ended⟩
      have resumed := Reading.resumed_step isFinish
        (isFinish ▸ .finish failure token.lexeme : finish.lexeme.Resumed token.lexeme) reading
      rw [soon, ended] at resumed
      exact (foretells_read persists resumed).trans (inductionHypothesis ended later)

/-- The faults of the content remain when the supply goes on where it failed. -/
theorem foretells_tokens {tokens others : List Token} (resumed : TokensResumed tokens others)
    {reading : Reading} {root other : Node} {trailing otherTrailing : Option Token}
    (soon : Reading.grow tokens reading = .done root trailing)
    (later : Reading.grow others reading = .done other otherTrailing) :
    Foretells (Tree.read reader ⟨root, trailing⟩) (Tree.read reader ⟨other, otherTrailing⟩) := by
  induction resumed generalizing reading with
  | same =>
      rw [soon] at later
      cases later
      exact .same _
  | cons token _ inductionHypothesis => exact inductionHypothesis soon later
  | @last first second resumed others =>
      have isFinish : (Token.mk (.finish none) 0 0).lexeme = .finish none := rfl
      have isLast : (Token.mk (.finish none) 0 0).lexeme.isLast = true := rfl
      rcases Reading.step_last isLast (Reading.step second reading) with
        ⟨middle, between, ended⟩
      have step := Reading.resumed_step isFinish resumed reading
      rw [Reading.grow_cons, Reading.grow_nil] at soon
      rw [soon, ended] at step
      exact (foretells_read persists step).trans (foretells_grow persists isFinish ended later)

/-- What a reader blames in the content of a supply that fails, it blames in every supply that
begins with it. -/
theorem Supply.foretells (bytes rest : List UInt8) (reason : String) (failure : Option String) :
    Foretells ((Supply.mk bytes (some reason)).tree.read reader)
      ((Supply.mk (bytes ++ rest) failure).tree.read reader) := by
  rcases (Supply.mk bytes (some reason)).grow_tokens with ⟨root, trailing, soon⟩
  rcases (Supply.mk (bytes ++ rest) failure).grow_tokens with ⟨other, otherTrailing, later⟩
  have resumed := Token.scan_more reason failure (Nat.zero_add bytes.length) rest
  rw [← List.length_append] at resumed
  rw [Supply.tree_of_done soon, Supply.tree_of_done later]
  exact foretells_tokens persists resumed soon later

end Documents

end Json
end RepoInspector
