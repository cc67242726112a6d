import RepoInspector.Json.Writing
import RepoInspector.Proofs.Json.Decoding

namespace RepoInspector
namespace Json

/-!
# Texts that are written and read

A text is written character by character, as an escape where there must be
one and in its encoding otherwise, and either way the pieces denote the
character again.
-/

/-- The bytes in which characters are encoded. -/
def encodedChars (chars : List Char) : List UInt8 := chars.flatMap String.utf8EncodeChar

theorem encodedChars_append (chars later : List Char) :
    encodedChars (chars ++ later) = encodedChars chars ++ encodedChars later :=
  List.flatMap_append

section Bytes

theorem toList_loop (bytes : ByteArray) (i : Nat) (before : List UInt8) :
    ByteArray.toList.loop bytes i before = before.reverse ++ bytes.data.toList.drop i := by
  fun_induction ByteArray.toList.loop bytes i before with
  | case1 i before inside inductionHypothesis =>
      have listed : i < bytes.data.toList.length := by
        rw [Array.length_toList]
        exact inside
      have first : bytes.get! i = bytes.data.toList[i] := by
        rw [ByteArray.get!, getElem!_pos bytes.data i inside, Array.getElem_toList]
      rw [inductionHypothesis, List.drop_eq_getElem_cons listed, List.reverse_cons,
        List.append_assoc, first]
      rfl
  | case2 i before outside =>
      have past : bytes.data.toList.length ≤ i := by
        rw [Array.length_toList]
        exact Nat.le_of_not_lt outside
      rw [List.drop_eq_nil_of_le past, List.append_nil]

theorem toList_toByteArray (bytes : List UInt8) : bytes.toByteArray.toList = bytes := by
  rw [ByteArray.toList, toList_loop, List.reverse_nil, List.nil_append, List.drop_zero,
    List.toList_data_toByteArray]

/-- The bytes of a text are its encoded characters. -/
theorem toList_toUTF8_ofList (chars : List Char) :
    (String.ofList chars).toUTF8.toList = encodedChars chars := by
  rw [String.toUTF8_eq_toByteArray, String.toByteArray_ofList]
  exact toList_toByteArray (encodedChars chars)

theorem toList_toUTF8 (text : String) : text.toUTF8.toList = encodedChars text.toList := by
  rw [← toList_toUTF8_ofList, String.ofList_toList]

/-- Encoded characters are a text. -/
theorem fromUTF8?_encodedChars (chars : List Char) :
    String.fromUTF8? (encodedChars chars).toByteArray = some (String.ofList chars) := by
  have valid : (encodedChars chars).toByteArray.IsValidUTF8 := ⟨chars, rfl⟩
  rw [String.fromUTF8?, dif_pos valid]
  rfl

end Bytes

/-!
## Cutting encoded texts

Behind an ASCII byte a new character starts, so a text can be cut there.
-/

theorem utf8EncodeChar_ascii {c : Char} (ascii : c.toNat < 128) :
    String.utf8EncodeChar c = [UInt8.ofNat c.toNat] := by
  have small : c.val.toNat ≤ 0x7f := Nat.le_of_lt_succ ascii
  rw [String.utf8EncodeChar, if_pos small]
  rfl

/-- A character beyond ASCII has no ASCII byte in its encoding. -/
theorem utf8EncodeChar_high {c : Char} (large : 128 ≤ c.toNat) :
    ∀ byte ∈ String.utf8EncodeChar c, 128 ≤ byte.toNat := by
  have high : forall n : Nat, 128 ≤ n -> n < 256 -> 128 ≤ (UInt8.ofNat n).toNat := by
    intro n least most
    rw [UInt8.toNat_ofNat', Nat.mod_eq_of_lt most]
    exact least
  have isValue : c.val.toNat = c.toNat := rfl
  unfold String.utf8EncodeChar
  dsimp only
  split
  case isTrue => omega
  case isFalse =>
  split
  case isTrue =>
    refine List.forall_mem_cons.mpr ⟨high _ (by omega) (by omega), ?_⟩
    exact List.forall_mem_singleton.mpr (high _ (by omega) (by omega))
  case isFalse =>
  split
  case isTrue =>
    refine List.forall_mem_cons.mpr ⟨high _ (by omega) (by omega), ?_⟩
    refine List.forall_mem_cons.mpr ⟨high _ (by omega) (by omega), ?_⟩
    exact List.forall_mem_singleton.mpr (high _ (by omega) (by omega))
  case isFalse =>
    refine List.forall_mem_cons.mpr ⟨high _ (by omega) (by omega), ?_⟩
    refine List.forall_mem_cons.mpr ⟨high _ (by omega) (by omega), ?_⟩
    refine List.forall_mem_cons.mpr ⟨high _ (by omega) (by omega), ?_⟩
    exact List.forall_mem_singleton.mpr (high _ (by omega) (by omega))

/-- The first of some bytes, if there is one, is an ASCII byte. -/
def StartsAscii (bytes : List UInt8) : Prop := ∀ byte ∈ bytes.head?, byte.toNat < 128

/-- A text can be cut before an ASCII byte. -/
theorem encodedChars_cut {chars : List Char} {before after : List UInt8}
    (whole : before ++ after = encodedChars chars) (ascii : StartsAscii after) :
    Exists fun left => Exists fun right =>
      before = encodedChars left ∧ after = encodedChars right := by
  induction chars generalizing before with
  | nil =>
      rcases List.append_eq_nil_iff.mp whole with ⟨rfl, rfl⟩
      exact ⟨[], [], rfl, rfl⟩
  | cons c chars inductionHypothesis =>
      rw [encodedChars, List.flatMap_cons, ← encodedChars] at whole
      rcases List.append_eq_append_iff.mp whole with
        ⟨middle, isFirst, isAfter⟩ | ⟨middle, isBefore, isRest⟩
      · rcases middle with _ | ⟨byte, middle⟩
        · rw [List.append_nil] at isFirst
          refine ⟨[c], chars, ?_, isAfter⟩
          rw [← isFirst]
          exact (List.flatMap_singleton _ _).symm
        · rcases before with _ | ⟨first, before⟩
          · exact ⟨[], c :: chars, rfl, isAfter.trans (congrArg (· ++ _) isFirst.symm)⟩
          · -- The cut would lie inside of a character.
            exfalso
            by_cases small : c.toNat < 128
            · rw [utf8EncodeChar_ascii small] at isFirst
              have sizes := congrArg List.length isFirst
              simp only [List.length_cons, List.length_nil, List.length_append] at sizes
              omega
            · have inside : byte ∈ String.utf8EncodeChar c := by
                rw [isFirst]
                exact List.mem_append_right _ List.mem_cons_self
              have high := utf8EncodeChar_high (Nat.le_of_not_lt small) byte inside
              have low := ascii byte (by rw [isAfter]; rfl)
              omega
      · rcases inductionHypothesis isRest.symm with ⟨left, right, rfl, isRight⟩
        exact ⟨c :: left, right, isBefore, isRight⟩

namespace Piece

theorem AllSpelled.append {pieces later : List Piece} {bytes others : List UInt8}
    (first : AllSpelled pieces bytes) (second : AllSpelled later others) :
    AllSpelled (pieces ++ later) (bytes ++ others) := by
  induction first with
  | nil => exact second
  | cons head _ inductionHypothesis =>
      rw [List.append_assoc]
      exact .cons head inductionHypothesis

/-- The pieces of a character as it is written. -/
def ofChar (c : Char) : List Piece :=
  if c = '\x22' then [.short 0x22]
  else if c = '\\' then [.short 0x5c]
  else if c = '\x08' then [.short 0x08]
  else if c = '\t' then [.short 0x09]
  else if c = '\n' then [.short 0x0a]
  else if c = '\x0c' then [.short 0x0c]
  else if c = '\r' then [.short 0x0d]
  else if c.toNat < 32 then [.unit (UInt16.ofNat c.toNat)]
  else (String.utf8EncodeChar c).map .raw

theorem AllSpelled.short {letter byte : UInt8} (known : shortEscape? letter = some byte) :
    AllSpelled [.short byte] [backslash, letter] :=
  .cons (.short known) .nil

/-- A byte that stands for itself in a text. -/
def Plain (byte : UInt8) : Prop := byte ≠ quoteByte ∧ byte ≠ backslash ∧ ¬ byte < 0x20

theorem AllSpelled.raw {bytes : List UInt8} (plain : ∀ byte ∈ bytes, Plain byte) :
    AllSpelled (bytes.map .raw) bytes := by
  induction bytes with
  | nil => exact .nil
  | cons byte bytes inductionHypothesis =>
      rcases List.forall_mem_cons.mp plain with ⟨⟨notQuote, notBackslash, notControl⟩, rest⟩
      exact .cons (.raw notQuote notBackslash notControl) (inductionHypothesis rest)

theorem encoded?_raw (bytes : List UInt8) (rest : List Piece) :
    encoded? (bytes.map .raw ++ rest) = (encoded? rest).map (bytes ++ ·) := by
  induction bytes with
  | nil =>
      rw [List.map_nil, List.nil_append]
      cases encoded? rest <;> rfl
  | cons byte bytes inductionHypothesis =>
      rw [List.map_cons, List.cons_append, encoded?, inductionHypothesis, Option.map_map]
      rfl

theorem plain_of_high {byte : UInt8} (high : 128 ≤ byte.toNat) : Plain byte := by
  refine ⟨fun same => ?_, fun same => ?_, fun small => ?_⟩
  · rw [same] at high; exact absurd high (by decide)
  · rw [same] at high; exact absurd high (by decide)
  · have low : byte.toNat < 32 := UInt8.lt_iff_toNat_lt.mp small
    omega

/-- The bytes of a character that needs no escape stand for themselves. -/
theorem plain_utf8EncodeChar {c : Char} (notQuote : c ≠ '\x22') (notBackslash : c ≠ '\\')
    (notControl : ¬ c.toNat < 32) : ∀ byte ∈ String.utf8EncodeChar c, Plain byte := by
  by_cases ascii : c.toNat < 128
  · have toNat : (UInt8.ofNat c.toNat).toNat = c.toNat := by
      rw [UInt8.toNat_ofNat']
      exact Nat.mod_eq_of_lt (by omega)
    rw [utf8EncodeChar_ascii ascii]
    refine List.forall_mem_singleton.mpr ⟨fun same => notQuote ?_, fun same => notBackslash ?_,
      fun small => notControl ?_⟩
    · rw [same] at toNat
      exact Char.toNat_inj.mp toNat.symm
    · rw [same] at toNat
      exact Char.toNat_inj.mp toNat.symm
    · rw [← toNat]
      exact UInt8.lt_iff_toNat_lt.mp small
  · intro byte listed
    exact plain_of_high (utf8EncodeChar_high (Nat.le_of_not_lt ascii) byte listed)

/-- The byte of a hexadecimal digit. -/
def hexByte (n : Nat) : UInt8 := UInt8.ofNat (hexDigit n).toNat

/-- A control character is spelled by its code unit, which is no surrogate. -/
theorem control_unit : ∀ n : Fin 32,
    encodedChars ['\\', 'u', '0', '0', hexDigit (n / 16), hexDigit (n % 16)] =
        [backslash, 0x75, 0x30, 0x30, hexByte (n / 16), hexByte (n % 16)] ∧
      codeUnit? 0x30 0x30 (hexByte (n / 16)) (hexByte (n % 16)) = some (UInt16.ofNat n) ∧
      Spelling.isTrailing (UInt16.ofNat n) = false ∧
      Spelling.isLeading (UInt16.ofNat n) = false := by
  decide

/-- What is written of a character is spelled by its pieces. -/
theorem ofChar_spelled (c : Char) : AllSpelled (ofChar c) (encodedChars (writeChar c)) := by
  unfold ofChar writeChar
  split
  case isTrue => exact .short (by decide : shortEscape? 0x22 = some 0x22)
  case isFalse notQuote =>
  split
  case isTrue => exact .short (by decide : shortEscape? 0x5c = some 0x5c)
  case isFalse notBackslash =>
  split
  case isTrue => exact .short (by decide : shortEscape? 0x62 = some 0x08)
  case isFalse =>
  split
  case isTrue => exact .short (by decide : shortEscape? 0x74 = some 0x09)
  case isFalse =>
  split
  case isTrue => exact .short (by decide : shortEscape? 0x6e = some 0x0a)
  case isFalse =>
  split
  case isTrue => exact .short (by decide : shortEscape? 0x66 = some 0x0c)
  case isFalse =>
  split
  case isTrue => exact .short (by decide : shortEscape? 0x72 = some 0x0d)
  case isFalse =>
  split
  case isTrue control =>
    have unit := control_unit ⟨c.toNat, control⟩
    rw [unit.1]
    exact .cons (.unit unit.2.1) .nil
  case isFalse notControl =>
    have bytes : encodedChars [c] = String.utf8EncodeChar c := List.flatMap_singleton _ _
    rw [bytes]
    exact .raw (plain_utf8EncodeChar notQuote notBackslash notControl)

/-- The pieces of a character denote it. -/
theorem encoded?_ofChar (c : Char) (rest : List Piece) :
    encoded? (ofChar c ++ rest) = (encoded? rest).map (String.utf8EncodeChar c ++ ·) := by
  unfold ofChar
  split
  case isTrue same => rw [same]; rfl
  case isFalse =>
  split
  case isTrue same => rw [same]; rfl
  case isFalse =>
  split
  case isTrue same => rw [same]; rfl
  case isFalse =>
  split
  case isTrue same => rw [same]; rfl
  case isFalse =>
  split
  case isTrue same => rw [same]; rfl
  case isFalse =>
  split
  case isTrue same => rw [same]; rfl
  case isFalse =>
  split
  case isTrue same => rw [same]; rfl
  case isFalse =>
  split
  case isTrue control =>
    have unit := control_unit ⟨c.toNat, control⟩
    have code : (UInt16.ofNat c.toNat).toNat = c.toNat := by
      rw [UInt16.toNat_ofNat']
      exact Nat.mod_eq_of_lt (by omega)
    have notTrailing : ¬ Spelling.isTrailing (UInt16.ofNat c.toNat) = true := by
      rw [unit.2.2.1]; exact Bool.false_ne_true
    have notLeading : ¬ Spelling.isLeading (UInt16.ofNat c.toNat) = true := by
      rw [unit.2.2.2]; exact Bool.false_ne_true
    rw [List.cons_append, List.nil_append, encoded?.eq_def]
    simp only [if_neg notTrailing, if_neg notLeading, code, Char.ofNat_toNat]
  case isFalse => exact encoded?_raw _ rest

/-- The pieces of a text as it is written. -/
def ofText (s : String) : List Piece := s.toList.flatMap ofChar

theorem ofText_spelled (chars : List Char) :
    AllSpelled (chars.flatMap ofChar) (encodedChars (chars.flatMap writeChar)) := by
  induction chars with
  | nil => exact .nil
  | cons c chars inductionHypothesis =>
      rw [List.flatMap_cons, List.flatMap_cons, encodedChars_append]
      exact (ofChar_spelled c).append inductionHypothesis

theorem encoded?_ofText (chars : List Char) :
    encoded? (chars.flatMap ofChar) = some (encodedChars chars) := by
  induction chars with
  | nil => rfl
  | cons c chars inductionHypothesis =>
      rw [List.flatMap_cons, encoded?_ofChar, inductionHypothesis]
      rfl

/-- A text that is written denotes itself. -/
theorem denoted?_ofText (s : String) : denoted? (ofText s) = some s := by
  rw [denoted?, ofText, encoded?_ofText]
  exact (fromUTF8?_encodedChars s.toList).trans (congrArg some String.ofList_toList)

end Piece

/-- A text between its quotes is the lexeme of its pieces. -/
theorem writeText_spelled (s : String) :
    (Lexeme.closedText (Piece.ofText s)).Spelled (encodedChars (writeText s)) := by
  have spelled := Lexeme.Spelled.text (Piece.ofText_spelled s.toList)
  have bytes : encodedChars (writeText s) =
      quoteByte :: (encodedChars (s.toList.flatMap writeChar) ++ [quoteByte]) := by
    rw [writeText, encodedChars_append]
    rfl
  rw [bytes]
  exact spelled

end Json
end RepoInspector
