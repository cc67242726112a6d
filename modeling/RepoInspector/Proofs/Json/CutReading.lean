import RepoInspector.Proofs.Json.CutTrees

namespace RepoInspector
namespace Json

/-!
# Reading what is left of a document

Whoever accepts a node refuses all that can be left of it, and reports that
the document came to its end too early.  There is one exception.  A number
that is no whole number of 64 bits may be at fault itself when its end is cut
off, because its exponent was what kept it in range, or because whoever passes
it over asks for the digit that is due.
-/

/-- A scalar of a node. -/
inductive Node.HasLeaf (token : Token) : Node -> Prop
  | leaf : HasLeaf token (.leaf token)
  | item {start : Token} {items : List Node} {ending : ArrayEnd} {item : Node}
      (listed : item ∈ items) (within : HasLeaf token item) :
      HasLeaf token (.array start items ending)
  | member {start : Token} {members : List (Key × Node)} {ending : ObjectEnd} {key : Key}
      {node : Node} (listed : (key, node) ∈ members) (within : HasLeaf token node) :
      HasLeaf token (.object start members ending)

/-- A fault of a document that ends at a place: that it ends there, or one of the
grammar at a number around that place, which is among the given ones. -/
def Fault.OfCut (place : Nat) (among : Token -> Prop) (fault : Fault) : Prop :=
  fault.category = .ended ∨
    fault.category = .grammar ∧ Exists fun token =>
      among token ∧ token.Unnatural ∧ token.Around place

/-- A result that is lacking because the document ends at a place. -/
def CutShort {α : Type} (place : Nat) (among : Token -> Prop) (result : Except Fault α) : Prop :=
  Exists fun fault => result = .error fault ∧ fault.OfCut place among

namespace CutShort

variable {α β : Type} {place : Nat} {among : Token -> Prop}

theorem ended {fault : Fault} (isEnded : fault.category = .ended) :
    CutShort place among (.error fault : Except Fault α) :=
  ⟨fault, rfl, .inl isEnded⟩

theorem number {fault : Fault} {token : Token} (isGrammar : fault.category = .grammar)
    (listed : among token) (unnatural : token.Unnatural) (around : token.Around place) :
    CutShort place among (.error fault : Except Fault α) :=
  ⟨fault, rfl, .inr ⟨isGrammar, token, listed, unnatural, around⟩⟩

theorem bind {result : Except Fault α} (short : CutShort place among result)
    (next : α -> Except Fault β) : CutShort place among (result >>= next) := by
  rcases short with ⟨fault, rfl, ofCut⟩
  exact ⟨fault, rfl, ofCut⟩

theorem map {result : Except Fault α} (short : CutShort place among result) (f : α -> β) :
    CutShort place among (result.map f) := by
  rcases short with ⟨fault, rfl, ofCut⟩
  exact ⟨fault, rfl, ofCut⟩

theorem mono {result : Except Fault α} (short : CutShort place among result)
    {others : Token -> Prop} (wider : forall token, among token -> others token) :
    CutShort place others result := by
  rcases short with ⟨fault, failed, isEnded | ⟨isGrammar, token, listed, number⟩⟩
  · exact ⟨fault, failed, .inl isEnded⟩
  · exact ⟨fault, failed, .inr ⟨isGrammar, token, wider token listed, number⟩⟩

end CutShort

/-- What is left of the inside of a container is read and the container then ends
with the document, or it is cut short. -/
def Halts {α : Type} (place : Nat) (among : Token -> Prop) (finishes : Prop)
    (result : Except Fault α) : Prop :=
  (finishes ∧ Exists fun a => result = .ok a) ∨ CutShort place among result

namespace Halts

variable {α β : Type} {place : Nat} {among : Token -> Prop} {finishes : Prop}

theorem map {result : Except Fault α} (halts : Halts place among finishes result) (f : α -> β) :
    Halts place among finishes (result >>= fun a => .ok (f a)) := by
  rcases halts with ⟨ends, a, rfl⟩ | short
  · exact .inl ⟨ends, f a, rfl⟩
  · exact .inr (short.bind _)

/-- The last value is read or it is cut short. -/
theorem last {result : Except Fault α} (finished : finishes)
    (given : (Exists fun a => result = .ok a) ∨ CutShort place among result) :
    Halts place among finishes result :=
  given.imp_left fun isRead => ⟨finished, isRead⟩

theorem mono {result : Except Fault α} (halts : Halts place among finishes result)
    {others : Token -> Prop} (wider : forall token, among token -> others token) :
    Halts place others finishes result :=
  halts.imp_right fun short => short.mono wider

/-- A container is cut short when its inside is. -/
theorem close {result : Except Fault α} (halts : Halts place among finishes result)
    {next : α -> Except Fault β} (ends : finishes -> forall a, CutShort place among (next a)) :
    CutShort place among (result >>= next) := by
  rcases halts with ⟨finished, a, rfl⟩ | short
  · exact ends finished a
  · exact short.bind next

end Halts

/-!
## Tokens
-/

/-- The pieces of a text that breaks off are not read. -/
theorem Spelling.bytes_cut {pieces front : List Piece} (paired : Piece.Paired pieces)
    (isFront : front <+: pieces) (limit offset : Nat) :
    bytes limit (.cut none) offset front = .error (cutFault limit none) := by
  induction paired generalizing front offset with
  | nil =>
      rw [List.prefix_nil.mp isFront]
      rfl
  | raw rest inductionHypothesis | short rest inductionHypothesis =>
      rcases List.prefix_cons_iff.mp isFront with rfl | ⟨later, rfl, isLater⟩
      · rfl
      · rw [bytes, inductionHypothesis isLater]
        rfl
  | unit notLeading notTrailing rest inductionHypothesis =>
      rcases List.prefix_cons_iff.mp isFront with rfl | ⟨later, rfl, isLater⟩
      · rfl
      · rw [bytes.eq_def]
        simp only [notTrailing, notLeading, Bool.false_eq_true, if_false,
          inductionHypothesis isLater]
        rfl
  | @pair first second pieces leading trailing rest inductionHypothesis =>
      rcases List.prefix_cons_iff.mp isFront with rfl | ⟨later, rfl, isLater⟩
      · rfl
      have notTrailing : isTrailing first = false := by
        cases alsoTrailing : isTrailing first with
        | false => rfl
        | true =>
            rw [not_leading_of_trailing alsoTrailing] at leading
            cases leading
      rcases List.prefix_cons_iff.mp isLater with rfl | ⟨last, rfl, isLast⟩
      · rw [bytes.eq_def]
        simp only [notTrailing, leading, Bool.false_eq_true, if_false, if_true]
        rfl
      · rw [bytes.eq_def]
        simp only [notTrailing, leading, trailing, Bool.false_eq_true, if_false, if_true,
          inductionHypothesis isLast]
        rfl

/-- A text that breaks off is not read when the whole one is. -/
theorem Spelling.read_cut {pieces front : List Piece} {name : String}
    (denoted : Piece.denoted? pieces = some name) (isFront : front <+: pieces)
    (limit start : Nat) :
    read limit start ⟨front, .cut none⟩ = .error (cutFault limit none) := by
  rcases Option.bind_eq_some_iff.mp denoted with ⟨encoded, isEncoded, _⟩
  have paired := (Piece.exists_encoded_iff pieces).mp ⟨encoded, isEncoded⟩
  rw [read, bytes_cut paired isFront]
  rfl

namespace Token

variable {α : Type} {place : Nat} {among : Token -> Prop} {token last finish : Token}

theorem Finishes.read (finishes : finish.Finishes) : CutShort place among finish.read := by
  have isFinish : finish.lexeme = .finish none := finishes
  simp only [Token.read, Token.unexpected, isFinish]
  exact .ended rfl

theorem Finishes.pass (finishes : finish.Finishes) : CutShort place among finish.pass := by
  have isFinish : finish.lexeme = .finish none := finishes
  simp only [Token.pass, Token.unexpected, isFinish]
  exact .ended rfl

/-- The end of the document where another token is due. -/
theorem Finishes.unexpected (finishes : finish.Finishes) {cause : Cause}
    (isEnded : cause.category = .ended) (wrong : Cause) :
    CutShort place among (.error (finish.unexpected cause wrong) : Except Fault α) := by
  have isFinish : finish.lexeme = .finish none := finishes
  simp only [Token.unexpected, isFinish]
  exact .ended isEnded

/-- What is left of a token that is read is not read. -/
theorem Breaks.read (breaks : token.Breaks place last) {value : Value}
    (accepted : token.read = .ok value) : CutShort place among last.read := by
  cases breaks with
  | keyword _ broken isEnded | number _ _ broken isEnded =>
      simp only [Token.read, broken]
      exact .ended isEnded
  | @text pieces front whole broken isFront =>
      simp only [Token.read, whole] at accepted
      rcases bind_eq_ok_iff.mp accepted with ⟨s, isRead, _⟩
      have denoted := (Spelling.read_closed pieces s).mp isRead
      simp only [Token.read, broken, Spelling.read_cut denoted isFront]
      exact .ended rfl

/-- What is left of a token that is passed over is not passed over. -/
theorem Breaks.pass (breaks : token.Breaks place last) :
    CutShort place (Node.leaf token).HasLeaf last.pass := by
  cases breaks with
  | keyword _ broken isEnded =>
      simp only [Token.pass, broken]
      exact .ended isEnded
  | number unnatural around broken _ isGrammar =>
      simp only [Token.pass, broken]
      exact .number isGrammar .leaf unnatural around
  | text _ broken =>
      simp only [Token.pass, broken]
      exact .ended rfl

/-- A number that is shorter is passed over. -/
theorem Shortens.pass {part : Token} (shortens : token.Shortens place part) :
    part.pass = .ok () := by
  cases shortens with
  | intro _ _ isNumber => simp only [Token.pass, isNumber]

/-- A number that is shorter is read, or it is out of range. -/
theorem Shortens.read {part : Token} (shortens : token.Shortens place part) :
    (Exists fun value => part.read = .ok value) ∨
      CutShort place (Node.leaf token).HasLeaf part.read := by
  cases shortens with
  | @intro numeral shorter whole around isNumber natural =>
      simp only [Token.read, isNumber]
      cases inRange : shorter.number with
      | ok n => exact .inl ⟨.number n, rfl⟩
      | error fault =>
          refine .inr (.number rfl .leaf ⟨numeral, whole, fun isNatural => ?_⟩ around)
          rcases natural isNatural with ⟨n, isNumber⟩
          cases inRange.symm.trans isNumber

end Token

/-!
## The ends of containers
-/

/-- An array ends because the document does. -/
def ArrayEnd.Finishes : ArrayEnd -> Prop
  | .unseparated next => next.Finishes
  | .closed _ | .afterComma _ | .broken => False

section Ends

variable {place : Nat} {among : Token -> Prop}

theorem ArrayEnd.Finishes.pass {ending : ArrayEnd} (finishes : ending.Finishes) :
    CutShort place among ending.pass := by
  cases ending with
  | unseparated next => exact Token.Finishes.unexpected finishes rfl _
  | closed | afterComma | broken => exact finishes.elim

theorem ArrayEnd.Finishes.read {ending : ArrayEnd} (finishes : ending.Finishes) :
    CutShort place among ending.read := by
  cases ending with
  | unseparated next => exact Token.Finishes.unexpected finishes rfl _
  | closed | afterComma | broken => exact finishes.elim

theorem ObjectEnd.Finishes.pass {ending : ObjectEnd} (finishes : ending.Finishes) :
    CutShort place among ending.pass := by
  cases ending with
  | unseparated next | keyless comma next => exact Token.Finishes.unexpected finishes rfl _
  | closed | broken => exact finishes.elim

theorem ObjectEnd.Finishes.read {ending : ObjectEnd} (finishes : ending.Finishes) :
    CutShort place among ending.read := by
  cases ending with
  | unseparated next => exact Token.Finishes.unexpected finishes rfl _
  | keyless comma next =>
      have isFinish : next.lexeme = .finish none := finishes
      cases comma with
      | false => exact Token.Finishes.unexpected finishes rfl _
      | true =>
          simp only [ObjectEnd.read, isFinish]
          exact Token.Finishes.unexpected finishes rfl _
  | closed | broken => exact finishes.elim

/-- The document ends where a colon is due. -/
theorem Key.colon_finishes {key : Key} (finishes : key.next.Finishes) :
    CutShort place among key.colon := by
  have isFinish : key.next.lexeme = .finish none := finishes
  simp only [Key.colon, isFinish]
  exact finishes.unexpected rfl _

section Names

variable {key : Key} {last next : Token} {pieces front : List Piece}

theorem Key.read_next : Key.read ⟨key.name, next⟩ = key.read := rfl

/-- A name that breaks off is not read when the whole one is. -/
theorem Key.read_cut (whole : key.name.lexeme = .closedText pieces)
    (broken : last.lexeme = .text ⟨front, .cut none⟩) (isFront : front <+: pieces) {name : String}
    (accepted : key.read = .ok name) : CutShort place among (Key.read ⟨last, next⟩) := by
  simp only [Key.read, whole] at accepted
  have denoted := (Spelling.read_closed pieces name).mp accepted
  simp only [Key.read, broken, Spelling.read_cut denoted isFront]
  exact .ended rfl

theorem Key.pass_cut (broken : last.lexeme = .text ⟨front, .cut none⟩) :
    CutShort place among (Key.pass ⟨last, next⟩) := by
  have short : CutShort place among last.pass := by
    simp only [Token.pass, broken]
    exact .ended rfl
  exact short.bind _

/-- A name is passed over, and then a colon is due. -/
theorem Key.pass_colon (accepted : key.pass = .ok ()) (finishes : next.Finishes) :
    CutShort place among (Key.pass ⟨key.name, next⟩) := by
  rcases bind_eq_ok_iff.mp accepted with ⟨_, isName, _⟩
  rw [Key.pass, isName, ok_bind]
  exact Key.colon_finishes finishes

end Names

end Ends

/-!
## Passing over and buffering what is left
-/

namespace Node

/-- A scalar of one of the items. -/
def ItemLeaf (items : List Node) (token : Token) : Prop :=
  Exists fun item => item ∈ items ∧ item.HasLeaf token

/-- A scalar of the value of one of the members. -/
def MemberLeaf (members : List (Key × Node)) (token : Token) : Prop :=
  Exists fun member => member ∈ members ∧ member.2.HasLeaf token

section Leaves

variable {start : Token} {key : Key} {node item : Node} {items : List Node} {member : Key × Node}
  {members : List (Key × Node)}

theorem ItemLeaf.whole {ending : ArrayEnd} (token : Token) (within : ItemLeaf items token) :
    (Node.array start items ending).HasLeaf token := by
  rcases within with ⟨item, listed, within⟩
  exact .item listed within

theorem ItemLeaf.head (token : Token) (within : item.HasLeaf token) :
    ItemLeaf (item :: items) token :=
  ⟨item, List.mem_cons_self, within⟩

theorem ItemLeaf.tail (token : Token) (within : ItemLeaf items token) :
    ItemLeaf (item :: items) token := by
  rcases within with ⟨other, listed, within⟩
  exact ⟨other, List.mem_cons_of_mem item listed, within⟩

theorem MemberLeaf.whole {ending : ObjectEnd} (token : Token) (within : MemberLeaf members token) :
    (Node.object start members ending).HasLeaf token := by
  rcases within with ⟨⟨key, node⟩, listed, within⟩
  exact .member listed within

theorem MemberLeaf.head (token : Token) (within : node.HasLeaf token) :
    MemberLeaf ((key, node) :: members) token :=
  ⟨(key, node), List.mem_cons_self, within⟩

theorem MemberLeaf.tail (token : Token) (within : MemberLeaf members token) :
    MemberLeaf (member :: members) token := by
  rcases within with ⟨other, listed, within⟩
  exact ⟨other, List.mem_cons_of_mem member listed, within⟩

end Leaves

variable {place : Nat}

mutual

/-- What is left of a node that is passed over is not passed over. -/
theorem pass_cut {node left : Node} (cut : node.Cut place left) (accepted : node.pass = .ok ()) :
    CutShort place node.HasLeaf left.pass := by
  match cut with
  | .before finishes => exact finishes.pass
  | .leaf breaks => exact breaks.pass
  | .array inner =>
      rcases bind_eq_ok_iff.mp accepted with ⟨_, passes, _⟩
      have short := (passItems_cut inner passes).close fun finishes _ => finishes.pass
      exact short.mono ItemLeaf.whole
  | .object inner =>
      rcases bind_eq_ok_iff.mp accepted with ⟨_, passes, _⟩
      have short := (passMembers_cut inner passes).close fun finishes _ => finishes.pass
      exact short.mono MemberLeaf.whole

theorem passItems_cut {items left : List Node} {ending : ArrayEnd}
    (cut : CutItems place items left ending) (accepted : passItems items = .ok ()) :
    Halts place (ItemLeaf items) ending.Finishes (passItems left) := by
  match cut with
  | .ends finishes => exact .inl ⟨finishes, (), rfl⟩
  | .shortens shortens finishes =>
      refine .inl ⟨finishes, (), ?_⟩
      rw [passItems, pass, shortens.pass, ok_bind, passItems]
  | .breaks cut =>
      rcases bind_eq_ok_iff.mp accepted with ⟨_, passes, _⟩
      exact .inr (((pass_cut cut passes).mono ItemLeaf.head).bind _)
  | .later rest =>
      rcases bind_eq_ok_iff.mp accepted with ⟨_, passes, passesRest⟩
      rw [passItems, passes, ok_bind]
      exact (passItems_cut rest passesRest).mono ItemLeaf.tail

theorem passMembers_cut {members left : List (Key × Node)} {ending : ObjectEnd}
    (cut : CutMembers place members left ending) (accepted : passMembers members = .ok ()) :
    Halts place (MemberLeaf members) ending.Finishes (passMembers left) := by
  match cut with
  | .ends finishes => exact .inl ⟨finishes, (), rfl⟩
  | .name _ broken _ => exact .inr ((Key.pass_cut broken).bind _)
  | .colon finishes =>
      rcases bind_eq_ok_iff.mp accepted with ⟨_, named, _⟩
      exact .inr ((Key.pass_colon named finishes).bind _)
  | .shortens shortens finishes =>
      rcases bind_eq_ok_iff.mp accepted with ⟨_, named, _⟩
      refine .inl ⟨finishes, (), ?_⟩
      rw [passMembers, named, pass, ok_bind, shortens.pass, ok_bind, passMembers]
  | .breaks cut =>
      rcases bind_eq_ok_iff.mp accepted with ⟨_, named, afterName⟩
      rcases bind_eq_ok_iff.mp afterName with ⟨_, passes, _⟩
      rw [passMembers, named, ok_bind]
      exact .inr (((pass_cut cut passes).mono MemberLeaf.head).bind _)
  | .later rest =>
      rcases bind_eq_ok_iff.mp accepted with ⟨_, named, afterName⟩
      rcases bind_eq_ok_iff.mp afterName with ⟨_, passes, passesRest⟩
      rw [passMembers, named, ok_bind, passes, ok_bind]
      exact (passMembers_cut rest passesRest).mono MemberLeaf.tail

end

mutual

/-- What is left of a node that is decoded is not decoded. -/
theorem buffer_cut {node left : Node} (cut : node.Cut place left) {allowance : Nat} {value : Value}
    (accepted : node.buffer allowance = .ok value) :
    CutShort place node.HasLeaf (left.buffer allowance) := by
  match cut, allowance with
  | .before finishes, _ => exact finishes.read
  | .leaf breaks, _ => exact breaks.read accepted
  | .array inner, allowance + 1 =>
      rcases bind_eq_ok_iff.mp accepted with ⟨values, decodes, _⟩
      have short := (bufferItems_cut inner decodes).close fun finishes values =>
        finishes.read.bind fun _ => .ok (Value.array values)
      exact short.mono ItemLeaf.whole
  | .object inner, allowance + 1 =>
      rcases bind_eq_ok_iff.mp accepted with ⟨values, decodes, _⟩
      have short := (bufferMembers_cut inner decodes).close fun finishes values =>
        finishes.read.bind fun _ => .ok (Value.object values)
      exact short.mono MemberLeaf.whole
  | .array _, 0 | .object _, 0 => cases accepted

theorem bufferItems_cut {items left : List Node} {ending : ArrayEnd}
    (cut : CutItems place items left ending) {allowance : Nat} {values : List Value}
    (accepted : bufferItems allowance items = .ok values) :
    Halts place (ItemLeaf items) ending.Finishes (bufferItems allowance left) := by
  match cut with
  | .ends finishes => exact .inl ⟨finishes, [], rfl⟩
  | .shortens shortens finishes =>
      have single := Halts.last finishes (shortens.read)
      exact (single.mono ItemLeaf.head).map fun value => [value]
  | .breaks cut =>
      rcases bind_eq_ok_iff.mp accepted with ⟨value, decodes, _⟩
      exact .inr (((buffer_cut cut decodes).mono ItemLeaf.head).bind _)
  | .later rest =>
      rcases bind_eq_ok_iff.mp accepted with ⟨value, decodes, afterItem⟩
      rcases bind_eq_ok_iff.mp afterItem with ⟨values, decodesRest, _⟩
      rw [bufferItems, decodes, ok_bind]
      exact ((bufferItems_cut rest decodesRest).mono ItemLeaf.tail).map _

theorem bufferMembers_cut {members left : List (Key × Node)} {ending : ObjectEnd}
    (cut : CutMembers place members left ending) {allowance : Nat}
    {values : List (String × Value)} (accepted : bufferMembers allowance members = .ok values) :
    Halts place (MemberLeaf members) ending.Finishes (bufferMembers allowance left) := by
  match cut with
  | .ends finishes => exact .inl ⟨finishes, [], rfl⟩
  | .name whole broken isFront =>
      rcases bind_eq_ok_iff.mp accepted with ⟨name, isName, _⟩
      exact .inr ((Key.read_cut whole broken isFront isName).bind _)
  | .colon finishes =>
      rcases bind_eq_ok_iff.mp accepted with ⟨name, isName, _⟩
      rw [bufferMembers, Key.read_next, isName, ok_bind]
      exact .inr ((Key.colon_finishes finishes).bind _)
  | .shortens shortens finishes =>
      rcases bind_eq_ok_iff.mp accepted with ⟨name, isName, afterName⟩
      rcases bind_eq_ok_iff.mp afterName with ⟨_, isColon, _⟩
      have single := Halts.last finishes (shortens.read)
      rw [bufferMembers, isName, ok_bind, isColon, ok_bind]
      exact (single.mono MemberLeaf.head).map fun value => [(name, value)]
  | .breaks cut =>
      rcases bind_eq_ok_iff.mp accepted with ⟨name, isName, afterName⟩
      rcases bind_eq_ok_iff.mp afterName with ⟨_, isColon, afterColon⟩
      rcases bind_eq_ok_iff.mp afterColon with ⟨value, decodes, _⟩
      rw [bufferMembers, isName, ok_bind, isColon, ok_bind]
      exact .inr (((buffer_cut cut decodes).mono MemberLeaf.head).bind _)
  | .later rest =>
      rcases bind_eq_ok_iff.mp accepted with ⟨name, isName, afterName⟩
      rcases bind_eq_ok_iff.mp afterName with ⟨_, isColon, afterColon⟩
      rcases bind_eq_ok_iff.mp afterColon with ⟨value, decodes, afterValue⟩
      rcases bind_eq_ok_iff.mp afterValue with ⟨values, decodesRest, _⟩
      rw [bufferMembers, isName, ok_bind, isColon, ok_bind, decodes, ok_bind]
      exact ((bufferMembers_cut rest decodesRest).mono MemberLeaf.tail).map _

end

end Node

/-- A reader refuses what is left of the nodes that it accepts.  A number that is
shorter it may accept. -/
structure Stops {α : Type} (place : Nat) (reader : Node -> Except Fault α) : Prop where
  cut : forall {node left : Node} {a : α}, node.Cut place left -> reader node = .ok a ->
    CutShort place node.HasLeaf (reader left)
  shorter : forall {token part : Token} {a : α}, token.Shortens place part ->
    reader (.leaf token) = .ok a -> (Exists fun b => reader (.leaf part) = .ok b) ∨
      CutShort place (Node.leaf token).HasLeaf (reader (.leaf part))

/-- What is made of what a reader gives does not matter. -/
theorem Stops.map {α β : Type} {place : Nat} {reader : Node -> Except Fault α}
    (stops : Stops place reader) (f : α -> β) : Stops place fun node => (reader node).map f where
  cut cut accepted := by
    rcases map_eq_ok_iff.mp accepted with ⟨a, isRead, _⟩
    exact (stops.cut cut isRead).map f
  shorter shortens accepted := by
    rcases map_eq_ok_iff.mp accepted with ⟨a, isRead, _⟩
    rcases stops.shorter shortens isRead with ⟨b, alsoRead⟩ | short
    · exact .inl ⟨f b, map_eq_ok_iff.mpr ⟨b, alsoRead, rfl⟩⟩
    · exact .inr (short.map f)

theorem Node.pass_stops (place : Nat) : Stops place Node.pass where
  cut := pass_cut
  shorter shortens _ := .inl ⟨(), shortens.pass⟩

theorem Node.buffer_stops (place allowance : Nat) : Stops place (Node.buffer allowance) where
  cut broken accepted := buffer_cut broken accepted
  shorter shortens _ := shortens.read

end Json
end RepoInspector
