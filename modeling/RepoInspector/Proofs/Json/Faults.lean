import RepoInspector.Proofs.Json.Contents
import RepoInspector.Proofs.Json.Decodability

namespace RepoInspector
namespace Json

/-!
# The faults of texts

A document can be wrong in ways that have nothing to do with what it says: its
supply fails, or its bytes encode no characters.  A text that is there as a
whole is never wrong in these ways, however malformed it is as a document.
What it can be wrong in has the same cause for both media, and a place that
the two count alike but for one byte.

The encoding is the harder part.  A text that is spelled in the document is
checked after its escapes are resolved, so it has to be shown that bytes
between two escapes are cut out at whole characters, also where the document
breaks off later.
-/

/-- The stream has been given at most one byte more than the text has used. -/
def Mark.Near (mark : Mark) : Prop := mark.text ≤ mark.stream ∧ mark.stream ≤ mark.text + 1

theorem Mark.near_after (offset : Nat) : (Mark.after offset).Near :=
  ⟨Nat.le_refl _, Nat.le_succ _⟩

theorem Mark.near_facing (offset : Nat) : (Mark.facing offset).Near :=
  ⟨Nat.le_succ _, Nat.le_refl _⟩

/-- The cause lies in what the document says. -/
def Cause.Inherent : Cause -> Prop
  | .failure _ | .badCodePoint => False
  | _ => True

theorem Cause.Inherent.category_ne_io {cause : Cause} (inherent : cause.Inherent) :
    cause.category ≠ .io := by
  cases cause <;> first | exact inherent.elim | exact nofun

theorem Cause.Inherent.ne_badCodePoint {cause : Cause} (inherent : cause.Inherent) :
    cause ≠ .badCodePoint := by
  rintro rfl
  exact inherent

/-- The fault lies in what the document says, and has a place in it. -/
structure Fault.Inherent (fault : Fault) : Prop where
  cause : fault.cause.Inherent
  mark : Exists fun mark => fault.mark = some mark ∧ mark.Near

theorem Fault.inherent_after {cause : Cause} {offset : Nat} (inherent : cause.Inherent) :
    (Fault.placed cause (.after offset)).Inherent :=
  ⟨inherent, _, rfl, Mark.near_after offset⟩

theorem Fault.inherent_facing {cause : Cause} {offset : Nat} (inherent : cause.Inherent) :
    (Fault.placed cause (.facing offset)).Inherent :=
  ⟨inherent, _, rfl, Mark.near_facing offset⟩

theorem Fault.inherent_ofMismatch (mismatch : Mismatch) {mark : Mark} (near : mark.Near) :
    (Fault.ofMismatch mismatch mark).Inherent :=
  ⟨trivial, mark, rfl, near⟩

/-- The end of a whole document. -/
theorem inherent_endFault {cause : Cause} {limit : Nat} (inherent : cause.Inherent) :
    (endFault cause limit none).Inherent :=
  Fault.inherent_after inherent

/-- Only a failure of the supply is moved when nothing is open. -/
theorem Fault.Inherent.bare {fault : Fault} (inherent : fault.Inherent) : fault.bare = fault := by
  rcases fault with ⟨cause, mark⟩
  cases cause with
  | failure reason => exact inherent.cause.elim
  | _ => rfl

/-- A result that has no other faults than these. -/
def Confined (may : Fault -> Prop) {α : Type} (result : Except Fault α) : Prop :=
  forall fault, result = .error fault -> may fault

namespace Confined

variable {may : Fault -> Prop} {α β : Type}

theorem ok (a : α) : Confined may (.ok a) := nofun

theorem error {fault : Fault} (allowed : may fault) :
    Confined may (.error fault : Except Fault α) := by
  intro other same
  cases same
  exact allowed

/-- Two steps fail as the first does, or as the second does after it. -/
theorem bind {result : Except Fault α} {next : α -> Except Fault β} (first : Confined may result)
    (second : forall a, result = .ok a -> Confined may (next a)) :
    Confined may (result >>= next) := by
  cases result with
  | error fault => exact .error (first fault rfl)
  | ok a => exact second a rfl

theorem map {result : Except Fault α} (confined : Confined may result) (f : α -> β) :
    Confined may (result.map f) := by
  cases result with
  | error fault => exact .error (confined fault rfl)
  | ok a => exact .ok (f a)

end Confined

/-- A result whose fault, if there is one, lies in what the document says. -/
def Inherently {α : Type} (result : Except Fault α) : Prop :=
  forall fault, result = .error fault -> fault.Inherent

namespace Inherently

variable {α β : Type}

theorem ok (a : α) : Inherently (.ok a) := Confined.ok a

theorem error {fault : Fault} (inherent : fault.Inherent) :
    Inherently (.error fault : Except Fault α) :=
  Confined.error inherent

theorem bind {result : Except Fault α} {next : α -> Except Fault β} (first : Inherently result)
    (second : forall a, result = .ok a -> Inherently (next a)) : Inherently (result >>= next) :=
  Confined.bind first second

end Inherently

/-!
## Tokens of texts
-/

/-- A text spelled within a text: its supply does not fail, and once it is
closed it denotes characters or breaks the rules of surrogates. -/
structure Spelling.OfText (spelling : Spelling) : Prop where
  supplied : forall reason, spelling.ending ≠ .cut (some reason)
  denotes : spelling.ending = .closed ->
    forall encoded, Piece.encoded? spelling.pieces = some encoded ->
      Exists fun chars => encoded = encodedChars chars

/-- A lexeme that can be found in a text, well formed or not. -/
def Lexeme.OfText : Lexeme -> Prop
  | .malformed read pass => read.Inherent ∧ pass.Inherent
  | .text spelling => spelling.OfText
  | .finish failure => failure = none
  | _ => True

def Token.OfText (token : Token) : Prop := token.lexeme.OfText

namespace Spelling

/-- The supply of a whole text does not fail. -/
theorem scan_supplied (bytes : List UInt8) (reason : String) :
    (scan none bytes).ending ≠ .cut (some reason) := by
  fun_induction scan none bytes with
  | case1 | case2 | case3 | case5 | case6 | case8 | case9 =>
      intro same
      cases same
  | case4 | case7 | case10 => assumption

/-- What follows a quote in a text is scanned as such. -/
theorem scan_ofText {bytes : List UInt8} {chars : List Char} (isText : bytes = encodedChars chars) :
    (scan none bytes).OfText := by
  refine ⟨scan_supplied bytes, fun closed => ?_⟩
  rcases scanned : scan none bytes with ⟨pieces, ending⟩
  rw [scanned] at closed
  cases closed
  rcases scan_closed scanned with ⟨spelled, rest, split, spells⟩
  rw [split] at isText
  exact (spells.denotes isText).1

end Spelling

/-- A numeral is spelled in ASCII. -/
theorem Numeral.Spelled.ascii {numeral : Numeral} {bytes : List UInt8}
    (spelled : numeral.Spelled bytes) : ∀ byte ∈ bytes, byte.toNat < 128 :=
  spelled.each (by decide) (by decide) (by simp)

namespace Lexeme

/-- A lexeme that is spelled in a text, and what is behind it. -/
theorem Spelled.ofText {lexeme : Lexeme} {spelled rest : List UInt8}
    (spells : lexeme.Spelled spelled) {chars : List Char}
    (isText : spelled ++ rest = encodedChars chars) :
    lexeme.OfText ∧ Exists fun others => rest = encodedChars others := by
  cases spells with
  | comma | colon | arrayStart | arrayEnd | objectStart | objectEnd | null | trueWord | falseWord =>
      exact ⟨trivial, encodedChars_behind (by simp) isText⟩
  | number spelledNumeral => exact ⟨trivial, encodedChars_behind spelledNumeral.ascii isText⟩
  | @text pieces bytes spelledPieces =>
      have quote : quoteByte.toNat < 128 := by decide
      rw [List.cons_append, List.append_assoc] at isText
      rcases encodedChars_tail quote isText with ⟨inside, isInside⟩
      have denotes := spelledPieces.denotes isInside
      exact ⟨⟨fun _ => nofun, fun _ => denotes.1⟩, denotes.2⟩

variable {limit start : Nat}

theorem keyword_ofText {word bytes : List UInt8} {meaning : Lexeme}
    (spelled : forall rest, bytes = word ++ rest -> meaning.OfText) :
    (keyword limit none start word meaning bytes).1.OfText := by
  unfold keyword
  split
  case h_1 whole =>
    rcases matchWord_whole whole with ⟨rest, split⟩
    exact spelled rest split
  case h_2 => exact ⟨Fault.inherent_after trivial, Fault.inherent_after trivial⟩
  case h_3 => exact ⟨inherent_endFault trivial, inherent_endFault trivial⟩

theorem numeral_ofText (bytes : List UInt8) : (numeral limit none start bytes).1.OfText := by
  unfold numeral
  split
  case h_1 => exact trivial
  case h_2 =>
    split
    · exact ⟨inherent_endFault trivial, inherent_endFault trivial⟩
    · exact ⟨Fault.inherent_after trivial, Fault.inherent_after trivial⟩

/-- The first lexeme of a text, whether the scan goes on behind it or not. -/
theorem scan_ofText {byte : UInt8} {bytes : List UInt8} {chars : List Char}
    (isText : byte :: bytes = encodedChars chars) :
    (scan limit none start byte bytes).1.OfText := by
  have found := scan_found limit start none byte bytes
  generalize scan limit none start byte bytes = result at found
  cases found with
  | sign spells _ => exact (spells.ofText (show [byte] ++ bytes = _ from isText)).1
  | @keyword word _ spells _ =>
      refine keyword_ofText fun rest split => ?_
      rw [split] at isText
      exact (spells.ofText (show (byte :: word) ++ rest = _ from isText)).1
  | text quoted =>
      subst quoted
      rcases encodedChars_tail (by decide) isText with ⟨inside, isInside⟩
      exact Spelling.scan_ofText isInside
  | numeral => exact numeral_ofText _
  | stray => exact trivial

end Lexeme

namespace Token

/-- Every token of a text is one that can be found in a text. -/
theorem scan_ofText {limit start : Nat} {bytes : List UInt8} {chars : List Char}
    (isText : bytes = encodedChars chars) :
    ∀ token ∈ Token.scan limit none start bytes, token.OfText := by
  fun_induction Token.scan limit none start bytes generalizing chars with
  | case1 start => exact List.forall_mem_singleton.mpr rfl
  | case2 start byte bytes isBlank inductionHypothesis =>
      rcases encodedChars_tail (blank_ascii isBlank) isText with ⟨others, isOthers⟩
      exact inductionHypothesis isOthers
  | case3 start byte bytes _ found single =>
      exact List.forall_mem_singleton.mpr (Lexeme.scan_ofText isText)
  | case4 start byte bytes _ found single goesOn =>
      rename_i inductionHypothesis
      refine List.forall_mem_cons.mpr ⟨Lexeme.scan_ofText isText, ?_⟩
      have goesOn' : found.1.isLast = false := Bool.eq_false_iff.mpr goesOn
      rcases Lexeme.scan_ok (show Lexeme.scan limit none start byte bytes =
        (found.1, found.2) from rfl) goesOn' with ⟨spelled, after, split, spells, width, _⟩
      have sameTail : bytes.drop (found.2 - 1) = after := width ▸ spells.drop split
      rcases (spells.ofText (split ▸ isText)).2 with ⟨others, isOthers⟩
      exact inductionHypothesis (sameTail.trans isOthers)

end Token

/-!
## Readers of the tokens of texts
-/

namespace Spelling

variable {limit : Nat} {ending : SpellingEnd}

theorem passEnding_inherently (supplied : forall reason, ending ≠ .cut (some reason))
    (offset : Nat) : Inherently (passEnding limit offset ending) := by
  match ending with
  | .closed => exact .ok ()
  | .control => exact .error (Fault.inherent_facing trivial)
  | .unknownEscape | .unknownUnit | .cut none => exact .error (Fault.inherent_after trivial)
  | .cut (some reason) => exact absurd rfl (supplied reason)

theorem readEnding_inherently (supplied : forall reason, ending ≠ .cut (some reason))
    (offset : Nat) : Inherently (readEnding limit offset ending) := by
  unfold readEnding
  split
  · exact .error (Fault.inherent_after trivial)
  · exact passEnding_inherently supplied offset

theorem inherent_unpairedEnding (supplied : forall reason, ending ≠ .cut (some reason))
    (offset : Nat) : (unpairedEnding limit offset ending).Inherent := by
  match ending with
  | .closed | .control | .unknownEscape | .unknownUnit | .cut none =>
      exact Fault.inherent_after trivial
  | .cut (some reason) => exact absurd rfl (supplied reason)

/-- The bytes of a text are at fault as its end is, or for a surrogate. -/
theorem bytes_confined {may : Fault -> Prop}
    (ended : forall offset, Confined may (readEnding limit offset ending))
    (unpaired : forall offset, may (unpairedEnding limit offset ending))
    (lone : forall offset, may (.placed .loneSurrogate (.after offset)))
    (halved : forall offset, may (.placed .surrogatePairCut (.after offset)))
    (offset : Nat) (pieces : List Piece) : Confined may (bytes limit ending offset pieces) := by
  fun_induction bytes limit ending offset pieces with
  | case1 offset => exact (ended offset).bind fun _ _ => .ok _
  | case2 | case3 | case8 | case10 =>
      rename_i inductionHypothesis
      exact inductionHypothesis.bind fun _ _ => .ok _
  | case5 => exact .error (unpaired _)
  | case4 | case9 => exact .error (lone _)
  | case6 | case7 => exact .error (halved _)

theorem bytes_inherently (supplied : forall reason, ending ≠ .cut (some reason)) (offset : Nat)
    (pieces : List Piece) : Inherently (bytes limit ending offset pieces) :=
  bytes_confined (readEnding_inherently supplied) (inherent_unpairedEnding supplied)
    (fun _ => Fault.inherent_after trivial) (fun _ => Fault.inherent_after trivial) offset pieces

variable {spelling : Spelling}

theorem OfText.pass (ofText : spelling.OfText) (limit start : Nat) :
    Inherently (spelling.pass limit start) :=
  passEnding_inherently ofText.supplied _

/-- The check of the encoding never fails on a text within a text. -/
theorem OfText.read (ofText : spelling.OfText) (limit start : Nat) :
    Inherently (spelling.read limit start) := by
  refine (bytes_inherently ofText.supplied _ _).bind fun encoded found => ?_
  have closed : spelling.ending = .closed :=
    Decidable.byContradiction fun isOpen => bytes_open isOpen _ _ _ found
  rw [closed, bytes_closed] at found
  rcases ofText.denotes closed encoded found with ⟨chars, rfl⟩
  rw [fromUTF8?_encodedChars]
  exact .ok _

end Spelling

namespace Token

variable {token : Token}

theorem OfText.unexpected (ofText : token.OfText) {ended wrong : Cause} (early : ended.Inherent)
    (other : wrong.Inherent) : (token.unexpected ended wrong).Inherent := by
  rcases token with ⟨lexeme, start, stop⟩
  cases lexeme with
  | finish failure =>
      cases (ofText : failure = none)
      exact inherent_endFault early
  | _ => exact Fault.inherent_after other

theorem near_closingMark (token : Token) : token.closingMark.Near := by
  unfold closingMark
  split
  · exact Mark.near_after _
  · exact Mark.near_after _
  · exact Mark.near_facing _

theorem near_scalarMark (token : Token) : token.scalarMark.Near := by
  unfold scalarMark
  split
  · exact Mark.near_facing _
  · exact Mark.near_after _

theorem near_rangeMark (numeral : Numeral) (token : Token) (fault : RangeFault) :
    (token.rangeMark numeral fault).Near := by
  cases fault with
  | whole => exact Mark.near_facing _
  | exponentDigits count => exact Mark.near_after _

theorem OfText.pass (ofText : token.OfText) : Inherently token.pass := by
  have unexpected : (token.unexpected .endInValue .valueDue).Inherent :=
    ofText.unexpected trivial trivial
  rcases token with ⟨lexeme, start, stop⟩
  cases lexeme with
  | null | boolean | number => exact .ok ()
  | text spelling => exact Spelling.OfText.pass ofText stop start
  | malformed read pass => exact .error ofText.2
  | comma | colon | arrayStart | arrayEnd | objectStart | objectEnd | stray | finish =>
      exact .error unexpected

theorem OfText.read (ofText : token.OfText) : Inherently token.read := by
  have unexpected : (token.unexpected .endInValue .valueDue).Inherent :=
    ofText.unexpected trivial trivial
  rcases token with ⟨lexeme, start, stop⟩
  cases lexeme with
  | null | boolean => exact .ok _
  | number numeral =>
      simp only [Token.read]
      split
      case h_1 => exact .ok _
      case h_2 fault _ =>
        exact .error ⟨trivial, _, rfl, near_rangeMark numeral ⟨.number numeral, start, stop⟩ fault⟩
  | text spelling => exact (Spelling.OfText.read ofText stop start).bind fun _ _ => .ok _
  | malformed read pass => exact .error ofText.1
  | comma | colon | arrayStart | arrayEnd | objectStart | objectEnd | stray | finish =>
      exact .error unexpected

end Token

/-!
## Readers of any tokens

What a reader of trees adds to the faults of its tokens lies in their order.
So its faults are of any sort that has those and the faults of the tokens.
-/

/-- The cause lies in how tokens stand together. -/
def Cause.Structural : Cause -> Prop
  | .colonDue | .commaOrArrayEndDue | .commaOrObjectEndDue | .valueDue | .keyDue
  | .trailingComma | .trailingCharacters | .tooDeep => True
  | _ => False

/-- Tokens with no other faults than these, to which belong all that lie in the order of
the tokens or in the data. -/
structure TokensConfined (may : Fault -> Prop) (among : Token -> Prop) : Prop where
  pass : forall {token : Token}, among token -> Confined may token.pass
  read : forall {token : Token}, among token -> Confined may token.read
  unexpected : forall {token : Token} {ended wrong : Cause}, among token ->
    ended.category = .ended -> wrong.Structural -> may (token.unexpected ended wrong)
  structural : forall {cause : Cause} {offset : Nat}, cause.Structural ->
    may (.placed cause (.after offset))
  mismatch : forall (mismatch : Mismatch) {mark : Mark}, mark.Near ->
    may (.ofMismatch mismatch mark)

namespace TokensConfined

variable {may : Fault -> Prop} {among : Token -> Prop} (confined : TokensConfined may among)

include confined

theorem arrayEnd_pass {ending : ArrayEnd} (each : ending.Each among) :
    Confined may ending.pass := by
  cases ending with
  | closed | broken => exact .ok ()
  | afterComma | unseparated => exact .error (confined.unexpected each rfl trivial)

theorem arrayEnd_read {ending : ArrayEnd} (each : ending.Each among) :
    Confined may ending.read := by
  cases ending with
  | closed | broken => exact .ok ()
  | afterComma | unseparated => exact .error (confined.unexpected each rfl trivial)

theorem objectEnd_pass {ending : ObjectEnd} (each : ending.Each among) :
    Confined may ending.pass := by
  cases ending with
  | closed | broken => exact .ok ()
  | keyless | unseparated => exact .error (confined.unexpected each rfl trivial)

theorem objectEnd_read {ending : ObjectEnd} (each : ending.Each among) :
    Confined may ending.read := by
  unfold ObjectEnd.read
  split
  case h_1 | h_2 => exact .ok ()
  case h_3 | h_5 => exact .error (confined.unexpected each rfl trivial)
  case h_4 => split <;> exact .error (confined.unexpected each rfl trivial)

theorem colon {key : Key} (each : key.Each among) : Confined may key.colon := by
  unfold Key.colon
  split
  · exact .ok ()
  · exact .error (confined.unexpected each.next rfl trivial)

theorem keyRead {key : Key} (each : key.Each among) : Confined may key.read := by
  unfold Key.read
  split
  case h_1 spelling isText =>
    have whole := confined.read each.name
    simp only [Token.read, isText] at whole
    intro fault failed
    exact whole fault (bind_eq_error_iff.mpr (.inl failed))
  case h_2 => exact .error (confined.unexpected each.name rfl trivial)

theorem keyPass {key : Key} (each : key.Each among) : Confined may key.pass :=
  (confined.pass each.name).bind fun _ _ => confined.colon each

omit confined

mutual

theorem nodePass (confined : TokensConfined may among) {node : Node} (each : node.Each among) :
    Confined may node.pass := by
  match node, each with
  | .leaf _, .leaf here => exact confined.pass here
  | .array _ _ _, .array _ inner ended =>
      exact (confined.itemsPass inner).bind fun _ _ => confined.arrayEnd_pass ended
  | .object _ _ _, .object _ keys inner ended =>
      exact (confined.membersPass keys inner).bind fun _ _ => confined.objectEnd_pass ended

theorem itemsPass (confined : TokensConfined may among) {items : List Node}
    (each : ∀ item ∈ items, item.Each among) : Confined may (Node.passItems items) := by
  match items with
  | [] => exact .ok ()
  | item :: items =>
      have ⟨first, others⟩ := List.forall_mem_cons.mp each
      exact (confined.nodePass first).bind fun _ _ => confined.itemsPass others

theorem membersPass (confined : TokensConfined may among) {members : List (Key × Node)}
    (keys : ∀ member ∈ members, member.1.Each among)
    (each : ∀ member ∈ members, member.2.Each among) :
    Confined may (Node.passMembers members) := by
  match members with
  | [] => exact .ok ()
  | (key, node) :: members =>
      have ⟨named, otherKeys⟩ := List.forall_mem_cons.mp keys
      have ⟨first, others⟩ := List.forall_mem_cons.mp each
      refine (confined.keyPass named).bind fun _ _ => (confined.nodePass first).bind fun _ _ => ?_
      exact confined.membersPass otherKeys others

end

mutual

theorem nodeBuffer (confined : TokensConfined may among) {node : Node} (each : node.Each among)
    (allowance : Nat) : Confined may (node.buffer allowance) := by
  match node, each, allowance with
  | .leaf _, .leaf here, _ => exact confined.read here
  | .array start _ _, _, 0 | .object start _ _, _, 0 => exact .error (confined.structural trivial)
  | .array _ _ _, .array _ inner ended, allowance + 1 =>
      refine (confined.itemsBuffer inner allowance).bind fun _ _ => ?_
      exact (confined.arrayEnd_read ended).bind fun _ _ => .ok _
  | .object _ _ _, .object _ keys inner ended, allowance + 1 =>
      refine (confined.membersBuffer keys inner allowance).bind fun _ _ => ?_
      exact (confined.objectEnd_read ended).bind fun _ _ => .ok _

theorem itemsBuffer (confined : TokensConfined may among) {items : List Node}
    (each : ∀ item ∈ items, item.Each among) (allowance : Nat) :
    Confined may (Node.bufferItems allowance items) := by
  match items with
  | [] => exact .ok []
  | item :: items =>
      have ⟨first, others⟩ := List.forall_mem_cons.mp each
      refine (confined.nodeBuffer first allowance).bind fun _ _ => ?_
      exact (confined.itemsBuffer others allowance).bind fun _ _ => .ok _

theorem membersBuffer (confined : TokensConfined may among) {members : List (Key × Node)}
    (keys : ∀ member ∈ members, member.1.Each among)
    (each : ∀ member ∈ members, member.2.Each among) (allowance : Nat) :
    Confined may (Node.bufferMembers allowance members) := by
  match members with
  | [] => exact .ok []
  | (key, node) :: members =>
      have ⟨named, otherKeys⟩ := List.forall_mem_cons.mp keys
      have ⟨first, others⟩ := List.forall_mem_cons.mp each
      refine (confined.keyRead named).bind fun _ _ => (confined.colon named).bind fun _ _ => ?_
      refine (confined.nodeBuffer first allowance).bind fun _ _ => ?_
      exact (confined.membersBuffer otherKeys others allowance).bind fun _ _ => .ok _

end

end TokensConfined

theorem Cause.inherent_of_ended {cause : Cause} (ended : cause.category = .ended) :
    cause.Inherent := by
  cases cause <;> trivial

theorem Cause.Structural.inherent {cause : Cause} (structural : cause.Structural) :
    cause.Inherent := by
  cases cause <;> trivial

theorem Token.ofText_confined : TokensConfined Fault.Inherent Token.OfText where
  pass := OfText.pass
  read := OfText.read
  unexpected ofText ended structural :=
    ofText.unexpected (Cause.inherent_of_ended ended) structural.inherent
  structural structural := Fault.inherent_after structural.inherent
  mismatch := Fault.inherent_ofMismatch

namespace Tree

theorem unopened_of_inherently {α : Type} {result : Except Fault α}
    (inherently : Inherently result) (root : Node) : unopened root result = result := by
  unfold unopened
  split
  case h_1 fault => rw [(inherently fault rfl).bare]
  case h_2 => rfl

theorem atEnd_inherently {tree : Tree} (ended : ∀ token ∈ tree.trailing, token.OfText) :
    Inherently tree.atEnd := by
  unfold atEnd
  split
  case h_1 => exact .ok ()
  case h_2 token isToken =>
    have ofText : token.lexeme.OfText := ended token isToken
    split
    case h_1 => exact .ok ()
    case h_2 reason isFinish =>
      rw [isFinish] at ofText
      cases (ofText : some reason = none)
    case h_3 => exact .error (Fault.inherent_after trivial)

end Tree

/-- A reader of nodes that fails inherently makes one of texts that does. -/
theorem Supply.read_inherently {α : Type} {reader : Node -> Except Fault α}
    (inherently : forall node : Node, node.Each Token.OfText -> Inherently (reader node))
    (chars : List Char) : Inherently ((Supply.mk (encodedChars chars) none).tree.read reader) := by
  have ⟨each, ended⟩ := Supply.each_tree ⟨encodedChars chars, none⟩ (Token.scan_ofText rfl)
  have result := inherently _ each
  rw [Tree.read, Tree.unopened_of_inherently result]
  exact result.bind fun _ _ => (Tree.atEnd_inherently ended).bind fun _ _ => .ok _

end Json
end RepoInspector
