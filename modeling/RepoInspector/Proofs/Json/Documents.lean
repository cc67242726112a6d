import RepoInspector.Proofs.Json.Writing
import RepoInspector.Record.Document

namespace RepoInspector
namespace Json

open Record

/-!
# Documents that are shown

A text that is shown as a document has to serve readers that know nothing of
how it was written.  They need that the whole text is one form whose names
differ, and that decoding it comes to the value that was meant.  Some of them
do not look at forms at all, but only tell what stands inside quotes from what
does not; so it is also shown that such a reader meets no control character
inside a text.
-/

/-!
## Texts inside documents
-/

/-- Where a reader that only looks at quotes and backslashes stands. -/
inductive Place
  | outside
  | inside
  /-- Behind a backslash inside a text. -/
  | escaped
deriving DecidableEq

def Place.step (byte : UInt8) : Place -> Place
  | .outside => if byte = quoteByte then .inside else .outside
  | .inside =>
      if byte = quoteByte then .outside else if byte = backslash then .escaped else .inside
  | .escaped => .inside

/-- Bytes lead from one place to another without a control character in a text. -/
def Clean : Place -> List UInt8 -> Place -> Prop
  | place, [], next => place = next
  | place, byte :: bytes, next =>
      (place = .outside ∨ ¬ byte < 0x20) ∧ Clean (place.step byte) bytes next

theorem Clean.append {place between next : Place} {bytes others : List UInt8}
    (first : Clean place bytes between) (rest : Clean between others next) :
    Clean place (bytes ++ others) next := by
  induction bytes generalizing place with
  | nil =>
      cases first
      exact rest
  | cons byte bytes inductionHypothesis => exact ⟨first.1, inductionHypothesis first.2⟩

/-- Bytes without a quote. -/
def Quoteless (bytes : List UInt8) : Prop := ∀ byte ∈ bytes, byte ≠ quoteByte

instance (bytes : List UInt8) : Decidable (Quoteless bytes) :=
  List.decidableBAll (fun byte => byte ≠ quoteByte) bytes

theorem Clean.outside {bytes : List UInt8} (quoteless : Quoteless bytes) :
    Clean .outside bytes .outside := by
  induction bytes with
  | nil => rfl
  | cons byte bytes inductionHypothesis =>
      rcases List.forall_mem_cons.mp quoteless with ⟨notQuote, rest⟩
      refine ⟨.inl rfl, ?_⟩
      rw [Place.step, if_neg notQuote]
      exact inductionHypothesis rest

/-- A byte inside a text that does not end it. -/
theorem Clean.inside {byte : UInt8} (plain : Piece.Plain byte) : Clean .inside [byte] .inside := by
  refine ⟨.inr plain.2.2, ?_⟩
  rw [Place.step, if_neg plain.1, if_neg plain.2.1]
  rfl

/-- A backslash, with the byte behind it. -/
theorem Clean.escape {byte : UInt8} (notControl : ¬ byte < 0x20) :
    Clean .inside [backslash, byte] .inside :=
  ⟨.inr (by decide), .inr notControl, rfl⟩

theorem notControl_of_shortEscape? {letter byte : UInt8}
    (known : shortEscape? letter = some byte) : ¬ letter < 0x20 := by
  unfold shortEscape? at known
  grind

theorem plain_of_hexValue? {digit : UInt8} {value : UInt16}
    (known : hexValue? digit = some value) : Piece.Plain digit := by
  unfold hexValue? at known
  unfold Piece.Plain quoteByte backslash
  grind

theorem Piece.Spelled.clean {piece : Piece} {bytes : List UInt8} (spelled : piece.Spelled bytes) :
    Clean .inside bytes .inside := by
  cases spelled with
  | raw notQuote notBackslash notControl => exact .inside ⟨notQuote, notBackslash, notControl⟩
  | short known => exact .escape (notControl_of_shortEscape? known)
  | @unit a b c d code known =>
      unfold codeUnit? at known
      rcases Option.bind_eq_some_iff.mp known with ⟨_, first, known⟩
      rcases Option.bind_eq_some_iff.mp known with ⟨_, second, known⟩
      rcases Option.bind_eq_some_iff.mp known with ⟨_, third, known⟩
      rcases Option.bind_eq_some_iff.mp known with ⟨_, fourth, _⟩
      have digits := ((Clean.inside (plain_of_hexValue? first)).append
        (Clean.inside (plain_of_hexValue? second))).append
        ((Clean.inside (plain_of_hexValue? third)).append
          (Clean.inside (plain_of_hexValue? fourth)))
      exact (Clean.escape (by decide)).append digits

theorem Piece.AllSpelled.clean {pieces : List Piece} {bytes : List UInt8}
    (spelled : Piece.AllSpelled pieces bytes) : Clean .inside bytes .inside := by
  induction spelled with
  | nil => rfl
  | cons head _ inductionHypothesis => exact head.clean.append inductionHypothesis

theorem Quoteless.append {bytes others : List UInt8} (first : Quoteless bytes)
    (rest : Quoteless others) : Quoteless (bytes ++ others) :=
  List.forall_mem_append.mpr ⟨first, rest⟩

theorem Quoteless.digits (digits : List Digit) : Quoteless (digitBytes digits) := by
  have each : forall digit : Digit, UInt8.ofNat (48 + digit.val) ≠ quoteByte := by decide
  intro byte listed
  rcases List.mem_map.mp listed with ⟨digit, _, rfl⟩
  exact each digit

theorem Numeral.FractionSpelled.quoteless {fraction : Option (List Digit)} {bytes : List UInt8}
    (spelled : FractionSpelled fraction bytes) : Quoteless bytes := by
  cases spelled with
  | absent => decide
  | present => exact List.forall_mem_cons.mpr ⟨by decide, Quoteless.digits _⟩

theorem Numeral.ExponentSpelled.quoteless {exponent : Option Exponent} {bytes : List UInt8}
    (spelled : ExponentSpelled exponent bytes) : Quoteless bytes := by
  cases spelled with
  | absent => decide
  | present isLetter =>
      have sign : forall sign, Quoteless (signBytes sign) := by
        rintro (_ | _ | _) <;> decide
      refine List.forall_mem_cons.mpr ⟨?_, (sign _).append (.digits _)⟩
      rcases isLetter with rfl | rfl <;> decide

/-- No quote belongs to a number. -/
theorem Numeral.Spelled.quoteless {numeral : Numeral} {bytes : List UInt8}
    (spelled : numeral.Spelled bytes) : Quoteless bytes := by
  have minus : forall negative, Quoteless (minusBytes negative) := by decide
  cases spelled with
  | intro _ fractionPart exponentPart =>
      exact (minus _).append ((Quoteless.digits _).append
        (fractionPart.quoteless.append exponentPart.quoteless))

theorem Lexeme.Spelled.clean {lexeme : Lexeme} {bytes : List UInt8}
    (spelled : lexeme.Spelled bytes) : Clean .outside bytes .outside := by
  cases spelled with
  | text spelled =>
      have opened : Clean .outside [quoteByte] .inside := ⟨.inl rfl, rfl⟩
      have closed : Clean .inside [quoteByte] .outside := ⟨.inr (by decide), rfl⟩
      exact opened.append (spelled.clean.append closed)
  | number spelled => exact .outside spelled.quoteless
  | comma | colon | arrayStart | arrayEnd | objectStart | objectEnd | null | trueWord
  | falseWord => exact .outside (by decide)

/-- In a grammatical document no control character stands inside a text. -/
theorem Layout.clean {lexemes : List Lexeme} {bytes : List UInt8} (layout : Layout lexemes bytes) :
    Clean .outside bytes .outside := by
  induction layout with
  | nil => rfl
  | @blank byte _ bytes isBlank _ inductionHypothesis =>
      have quoteless : byte ≠ quoteByte := by
        rintro rfl
        cases isBlank
      have single : Clean .outside [byte] .outside :=
        .outside (List.forall_mem_singleton.mpr quoteless)
      exact single.append inductionHypothesis
  | lexeme spelled _ inductionHypothesis => exact spelled.clean.append inductionHypothesis

/-!
## Documents
-/

/-- A text is a document of a value. -/
structure Document (text : String) (value : Value) : Prop where
  /-- The whole text is one form that denotes the value, and it repeats no name. -/
  grammatical : Exists fun form : Form =>
    form.Written text.toUTF8.toList ∧ form.Distinct ∧ form.Denotes nestingAllowance value
  clean : Clean .outside text.toUTF8.toList .outside
  decoded : (supplyOfText text).tree.buffer = .ok value

/-- A tidy value on a line of its own is a document. -/
theorem Document.of_tidy {value : Value} (tidy : value.Tidy nestingAllowance) (style : Style) :
    Document (value.toText style ++ "\n") value := by
  rcases tidy.written with ⟨form, denotes, distinct, written⟩
  have ended : form.Written (value.toText style ++ "\n").toUTF8.toList := by
    have feed : Layout [] (encodedChars "\n".toList) :=
      .blank (show isBlankByte 0x0a = true from rfl) .nil
    have whole := Layout.append (written style) feed
    rw [List.append_nil, toList_toUTF8, ← encodedChars_append,
      ← String.toList_append, ← toList_toUTF8] at whole
    exact whole
  exact
    { grammatical := ⟨form, ended, distinct, denotes⟩
      clean := Layout.clean ended
      decoded := Supply.buffer_iff.mpr ⟨rfl, form, ended, denotes⟩ }

/-!
## What is read in values
-/

namespace Value

/-- What an object holds under a name. -/
def member? (name : String) : Value -> Option Value
  | .object members => (members.find? fun member => member.1 = name).map Prod.snd
  | _ => none

def text? : Value -> Option String
  | .text s => some s
  | _ => none

def boolean? : Value -> Option Bool
  | .boolean b => some b
  | _ => none

/-- A text, or null for its absence. -/
def optionalText? : Value -> Option (Option String)
  | .null => some none
  | .text s => some (some s)
  | _ => none

/-- The items of an array, if each of them can be read. -/
def items? {α : Type} (read? : Value -> Option α) : Value -> Option (List α)
  | .array items => items.mapM read?
  | _ => none

theorem items?_map {α β : Type} {read? : Value -> Option β} {write : α -> Value} {data : α -> β}
    (reads : forall a, read? (write a) = some (data a)) (items : List α) :
    items? read? (.array (items.map write)) = some (items.map data) := by
  unfold items?
  induction items with
  | nil => rfl
  | cons a items inductionHypothesis =>
      simp only at inductionHypothesis ⊢
      rw [List.map_cons, List.mapM_cons, reads, inductionHypothesis]
      rfl

end Value

/-- A text is a document in which data is read. -/
def Shows {α : Type} (text : String) (read? : Value -> Option α) (data : α) : Prop :=
  Exists fun value => Document text value ∧ read? value = some data

end Json
end RepoInspector
