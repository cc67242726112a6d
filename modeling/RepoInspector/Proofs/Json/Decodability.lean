import RepoInspector.Proofs.Json.Settling

namespace RepoInspector
namespace Json

/-!
# What decodes

Whether a form that stands in a text decodes can be told without decoding it:
every number in it has to be in range, surrogates have to come in pairs, and
containers must not be nested deeper than the allowance.  Nothing else can go
wrong, because an escape denotes a whole character and the bytes between two
escapes are cut out of a text at ASCII bytes.
-/

/-!
## Texts
-/

/-- Behind an ASCII byte of a text the rest is a text. -/
theorem encodedChars_tail {byte : UInt8} (ascii : byte.toNat < 128) {bytes : List UInt8}
    {chars : List Char} (isText : byte :: bytes = encodedChars chars) :
    Exists fun others => bytes = encodedChars others := by
  cases chars with
  | nil => cases isText
  | cons c chars =>
      rw [encodedChars, List.flatMap_cons, ← encodedChars] at isText
      by_cases small : c.toNat < 128
      · rw [utf8EncodeChar_ascii small] at isText
        exact ⟨chars, (List.cons.inj isText).2⟩
      · exfalso
        have high := utf8EncodeChar_high (Nat.le_of_not_lt small)
        cases encoding : String.utf8EncodeChar c with
        | nil => exact String.utf8EncodeChar_ne_nil encoding
        | cons first later =>
            rw [encoding] at isText high
            have same := (List.cons.inj isText).1
            have notAscii := high first List.mem_cons_self
            rw [← same] at notAscii
            omega

/-- Behind ASCII bytes of a text the rest is a text. -/
theorem encodedChars_behind {spelled : List UInt8} (ascii : ∀ byte ∈ spelled, byte.toNat < 128)
    {bytes : List UInt8} {chars : List Char} (isText : spelled ++ bytes = encodedChars chars) :
    Exists fun others => bytes = encodedChars others := by
  induction spelled generalizing chars with
  | nil => exact ⟨chars, isText⟩
  | cons byte spelled inductionHypothesis =>
      rcases List.forall_mem_cons.mp ascii with ⟨first, rest⟩
      rcases encodedChars_tail first isText with ⟨others, isRest⟩
      exact inductionHypothesis rest isRest

/-- A text can be cut before and behind ASCII bytes. -/
theorem encodedChars_around {before spelled after : List UInt8} (some_byte : spelled ≠ [])
    (ascii : ∀ byte ∈ spelled, byte.toNat < 128) {chars : List Char}
    (isText : before ++ (spelled ++ after) = encodedChars chars) :
    Exists fun left => Exists fun right =>
      before = encodedChars left ∧ after = encodedChars right := by
  have startsAscii : StartsAscii (spelled ++ after) := by
    intro byte isFirst
    rw [List.head?_append_of_ne_nil _ some_byte] at isFirst
    exact ascii byte (List.mem_of_mem_head? isFirst)
  rcases encodedChars_cut isText startsAscii with ⟨left, middle, isLeft, isMiddle⟩
  rcases encodedChars_behind ascii isMiddle with ⟨right, isRight⟩
  exact ⟨left, right, isLeft, isRight⟩

/-- A character between two texts. -/
theorem encodedChars_between (left : List Char) (c : Char) (right : List Char) :
    encodedChars left ++ (String.utf8EncodeChar c ++ encodedChars right) =
      encodedChars (left ++ c :: right) := by
  rw [encodedChars_append, encodedChars, encodedChars, encodedChars, List.flatMap_cons]

/-- An ASCII byte encodes the character of its number. -/
theorem utf8EncodeChar_ofByte {byte : UInt8} (ascii : byte.toNat < 128) :
    String.utf8EncodeChar (Char.ofNat byte.toNat) = [byte] := by
  have value : (Char.ofNat byte.toNat).toNat = byte.toNat := by
    have each : ∀ n : Fin 128, (Char.ofNat n.val).toNat = n.val := by decide
    exact each ⟨byte.toNat, ascii⟩
  rw [utf8EncodeChar_ascii (value.symm ▸ ascii), value, UInt8.ofNat_toNat]

namespace Spelling

/-- No code unit is both halves of a pair. -/
theorem not_leading_of_trailing {code : UInt16} (trailing : isTrailing code = true) :
    isLeading code = false := by
  simp only [isTrailing, isLeading, Bool.and_eq_true, decide_eq_true_eq, Bool.and_eq_false_iff,
    decide_eq_false_iff_not, UInt16.le_iff_toNat_le] at trailing ⊢
  have least : (0xdc00 : UInt16).toNat = 0xdc00 := rfl
  have most : (0xdbff : UInt16).toNat = 0xdbff := rfl
  omega

end Spelling

namespace Piece

/-- Surrogates come in pairs, the leading one first. -/
inductive Paired : List Piece -> Prop
  | nil : Paired []
  | raw {byte : UInt8} {pieces : List Piece} (rest : Paired pieces) :
      Paired (.raw byte :: pieces)
  | short {byte : UInt8} {pieces : List Piece} (rest : Paired pieces) :
      Paired (.short byte :: pieces)
  | unit {code : UInt16} {pieces : List Piece} (notLeading : Spelling.isLeading code = false)
      (notTrailing : Spelling.isTrailing code = false) (rest : Paired pieces) :
      Paired (.unit code :: pieces)
  | pair {first second : UInt16} {pieces : List Piece} (leading : Spelling.isLeading first = true)
      (trailing : Spelling.isTrailing second = true) (rest : Paired pieces) :
      Paired (.unit first :: .unit second :: pieces)

/-- A code unit that does not lead a pair stands alone. -/
theorem paired_unit_iff {code : UInt16} {pieces : List Piece}
    (notLeading : Spelling.isLeading code = false) :
    Paired (.unit code :: pieces) ↔ Spelling.isTrailing code = false ∧ Paired pieces := by
  constructor
  · intro paired
    cases paired with
    | unit _ notTrailing rest => exact ⟨notTrailing, rest⟩
    | pair leading _ _ =>
        rw [notLeading] at leading
        cases leading
  · exact fun given => .unit notLeading given.1 given.2

/-- A code unit that leads a pair is followed by the other half. -/
theorem paired_leading_iff {code : UInt16} {pieces : List Piece}
    (leading : Spelling.isLeading code = true) :
    Paired (.unit code :: pieces) ↔ Exists fun second => Exists fun rest =>
      pieces = .unit second :: rest ∧ Spelling.isTrailing second = true ∧ Paired rest := by
  constructor
  · intro paired
    cases paired with
    | unit notLeading _ _ =>
        rw [leading] at notLeading
        cases notLeading
    | pair _ trailing rest => exact ⟨_, _, rfl, trailing, rest⟩
  · intro given
    rcases given with ⟨second, rest, rfl, trailing, paired⟩
    exact .pair leading trailing paired

/-- Pieces denote bytes when their surrogates come in pairs. -/
theorem exists_encoded_iff (pieces : List Piece) :
    (Exists fun encoded => encoded? pieces = some encoded) ↔ Paired pieces := by
  rw [← Option.isSome_iff_exists]
  fun_induction encoded? pieces with
  | case1 => exact ⟨fun _ => .nil, fun _ => rfl⟩
  | case2 byte pieces inductionHypothesis =>
      rw [Option.isSome_map, inductionHypothesis]
      exact ⟨.raw, fun paired => by cases paired; assumption⟩
  | case3 byte pieces inductionHypothesis =>
      rw [Option.isSome_map, inductionHypothesis]
      exact ⟨.short, fun paired => by cases paired; assumption⟩
  | case4 code pieces trailing =>
      rw [paired_unit_iff (Spelling.not_leading_of_trailing trailing), trailing]
      exact ⟨fun encoded => absurd encoded Bool.false_ne_true, fun given => absurd given.1.symm
        Bool.false_ne_true⟩
  | case5 code trailing leading second pieces paired inductionHypothesis =>
      rw [Option.isSome_map, inductionHypothesis, paired_leading_iff leading]
      refine ⟨fun rest => ⟨second, pieces, rfl, paired, rest⟩, fun given => ?_⟩
      rcases given with ⟨_, _, same, _, rest⟩
      cases same
      exact rest
  | case6 code trailing leading second pieces unpaired =>
      rw [paired_leading_iff leading]
      refine ⟨fun encoded => absurd encoded Bool.false_ne_true, fun given => ?_⟩
      rcases given with ⟨_, _, same, paired, _⟩
      cases same
      exact absurd paired unpaired
  | case7 code pieces trailing leading single =>
      rw [paired_leading_iff leading]
      refine ⟨fun encoded => absurd encoded Bool.false_ne_true, fun given => ?_⟩
      rcases given with ⟨second, rest, same, _⟩
      exact absurd same (single second rest)
  | case8 code pieces trailing leading inductionHypothesis =>
      rw [Bool.not_eq_true] at leading trailing
      rw [Option.isSome_map, inductionHypothesis, paired_unit_iff leading, and_iff_right trailing]

theorem shortEscape_ascii {letter byte : UInt8} (known : shortEscape? letter = some byte) :
    letter.toNat < 128 ∧ byte.toNat < 128 := by
  unfold shortEscape? at known
  split at known
  case isTrue same =>
    cases known
    simp only [Bool.or_eq_true, decide_eq_true_eq] at same
    rcases same with (rfl | rfl) | rfl <;> decide
  case isFalse =>
    repeat
      split at known
      · subst letter; cases known; decide
    cases known

theorem hexValue_ascii {digit : UInt8} {value : UInt16} (known : hexValue? digit = some value) :
    digit.toNat < 128 := by
  have bound : forall {most : UInt8}, most.toNat < 128 -> digit ≤ most -> digit.toNat < 128 :=
    fun small least => Nat.lt_of_le_of_lt (UInt8.le_iff_toNat_le.mp least) small
  simp only [hexValue?, Bool.and_eq_true, decide_eq_true_eq] at known
  split at known
  case isTrue range => exact bound (by decide) range.2
  case isFalse =>
  split at known
  case isTrue range => exact bound (by decide) range.2
  case isFalse =>
  split at known
  case isTrue range => exact bound (by decide) range.2
  case isFalse => cases known

/-- An escape is spelled in ASCII. -/
theorem unit_ascii {a b c d : UInt8} {code : UInt16} (known : codeUnit? a b c d = some code) :
    ∀ byte ∈ [backslash, 0x75, a, b, c, d], byte.toNat < 128 := by
  simp only [codeUnit?, Option.bind_eq_bind, Option.bind_eq_some_iff] at known
  rcases known with ⟨_, isA, _, isB, _, isC, _, isD, _⟩
  simp only [List.forall_mem_cons]
  exact ⟨by decide, by decide, hexValue_ascii isA, hexValue_ascii isB, hexValue_ascii isC,
    hexValue_ascii isD, fun _ => (nomatch ·)⟩

/-- Behind an escape the rest of a text is a text, and then so is what is denoted
when the escape denotes a character. -/
theorem escape_isText {before spelled after encoded : List UInt8} (some_byte : spelled ≠ [])
    (ascii : ∀ byte ∈ spelled, byte.toNat < 128) {chars : List Char}
    (isText : before ++ (spelled ++ after) = encodedChars chars) (c : Char)
    (behind : forall right, after = encodedChars right ->
      Exists fun others => encoded = encodedChars others) :
    Exists fun others => before ++ (String.utf8EncodeChar c ++ encoded) = encodedChars others := by
  rcases encodedChars_around some_byte ascii isText with ⟨left, right, rfl, isRight⟩
  rcases behind right isRight with ⟨others, rfl⟩
  exact ⟨left ++ c :: others, encodedChars_between left c others⟩

/-- What pieces in a text denote is a text, together with the bytes right in
front of them.  These are needed because a character may be spelled by several
pieces, each of them one byte. -/
theorem encoded_isText {pieces : List Piece} {bytes : List UInt8} (spelled : AllSpelled pieces bytes)
    {encoded : List UInt8} (isEncoded : encoded? pieces = some encoded) {before : List UInt8}
    {chars : List Char} (isText : before ++ bytes = encodedChars chars) :
    Exists fun others => before ++ encoded = encodedChars others := by
  fun_induction encoded? pieces generalizing bytes encoded before chars with
  | case1 =>
      cases spelled
      cases isEncoded
      exact ⟨chars, isText⟩
  | case2 byte pieces inductionHypothesis =>
      rcases Option.map_eq_some_iff.mp isEncoded with ⟨rest, isRest, rfl⟩
      cases spelled with
      | cons head tail =>
          cases head
          rw [← List.append_assoc] at isText
          rw [List.append_cons]
          exact inductionHypothesis tail isRest isText
  | case3 byte pieces inductionHypothesis =>
      rcases Option.map_eq_some_iff.mp isEncoded with ⟨rest, isRest, rfl⟩
      cases spelled with
      | cons head tail =>
          cases head with
          | short known =>
              have ascii := shortEscape_ascii known
              have escape := escape_isText (List.cons_ne_nil _ _) (List.forall_mem_cons.mpr
                ⟨by decide, List.forall_mem_singleton.mpr ascii.1⟩) isText (Char.ofNat byte.toNat)
                fun _ isRight => inductionHypothesis tail isRest (show [] ++ _ = _ from isRight)
              rwa [utf8EncodeChar_ofByte ascii.2] at escape
  | case4 | case6 | case7 => cases isEncoded
  | case5 code trailing leading second pieces paired inductionHypothesis =>
      rcases Option.map_eq_some_iff.mp isEncoded with ⟨rest, isRest, rfl⟩
      cases spelled with
      | cons head tail =>
          cases tail with
          | cons next tail =>
              cases head with
              | unit known =>
                  cases next with
                  | unit alsoKnown =>
                      rw [← List.append_assoc [backslash, _, _, _, _, _]] at isText
                      exact escape_isText (List.append_ne_nil_of_left_ne_nil
                        (List.cons_ne_nil _ _) _) (List.forall_mem_append.mpr
                        ⟨unit_ascii known, unit_ascii alsoKnown⟩) isText _
                        fun _ isRight => inductionHypothesis tail isRest
                          (show [] ++ _ = _ from isRight)
  | case8 code pieces trailing leading inductionHypothesis =>
      rcases Option.map_eq_some_iff.mp isEncoded with ⟨rest, isRest, rfl⟩
      cases spelled with
      | cons head tail =>
          cases head with
          | unit known =>
              exact escape_isText (List.cons_ne_nil _ _) (unit_ascii known) isText _
                fun _ isRight => inductionHypothesis tail isRest (show [] ++ _ = _ from isRight)

/-- Pieces up to a closing quote denote a text if they denote anything, and the
rest of the document is a text. -/
theorem AllSpelled.denotes {pieces : List Piece} {bytes rest : List UInt8}
    (spelled : AllSpelled pieces bytes) {chars : List Char}
    (isText : bytes ++ quoteByte :: rest = encodedChars chars) :
    (forall encoded, encoded? pieces = some encoded ->
      Exists fun others => encoded = encodedChars others) ∧
    Exists fun others => rest = encodedChars others := by
  rcases encodedChars_around (List.cons_ne_nil _ []) (List.forall_mem_singleton.mpr (by decide))
    (isText : _ ++ ([quoteByte] ++ _) = _) with ⟨left, right, isLeft, isRight⟩
  refine ⟨fun encoded isEncoded => ?_, right, isRight⟩
  exact encoded_isText spelled isEncoded (show [] ++ _ = _ from isLeft)

/-- A text in a document denotes characters when its surrogates come in pairs. -/
theorem exists_denoted_iff {pieces : List Piece} (writable : (Lexeme.closedText pieces).Writable) :
    (Exists fun s => denoted? pieces = some s) ↔ Paired pieces := by
  rw [← exists_encoded_iff]
  constructor
  · intro given
    rcases given with ⟨s, denoted⟩
    rcases Option.bind_eq_some_iff.mp denoted with ⟨encoded, isEncoded, _⟩
    exact ⟨encoded, isEncoded⟩
  · intro given
    rcases given with ⟨encoded, isEncoded⟩
    rcases writable with ⟨chars, spelled⟩
    generalize isText : encodedChars chars = bytes at spelled
    cases spelled with
    | text spelled =>
        rcases encodedChars_tail (by decide) isText.symm with ⟨inside, isInside⟩
        rcases (spelled.denotes isInside).1 encoded isEncoded with ⟨others, rfl⟩
        exact ⟨String.ofList others, by rw [denoted?, isEncoded, Option.bind_some,
          fromUTF8?_encodedChars]⟩

end Piece

/-!
## Forms
-/

/-- A number is in range, and the surrogates of a text come in pairs. -/
def Lexeme.Sound : Lexeme -> Prop
  | .number numeral => Exists fun n => numeral.number = .ok n
  | .text spelling => Piece.Paired spelling.pieces
  | _ => True

/-- A number is in range, and a text denotes characters. -/
def Lexeme.Denotable : Lexeme -> Prop
  | .number numeral => Exists fun n => numeral.number = .ok n
  | .text spelling => Exists fun s => Piece.denoted? spelling.pieces = some s
  | _ => True

theorem Lexeme.denotable_ofScalars : Lexeme.OfScalars Lexeme.Denotable :=
  ⟨trivial, trivial, trivial, trivial, trivial, trivial⟩

/-- In a text a lexeme denotes something when it is sound. -/
theorem Lexeme.denotable_iff_sound {lexeme : Lexeme} (writable : lexeme.Writable) :
    lexeme.Denotable ↔ lexeme.Sound := by
  cases lexeme with
  | text spelling =>
      rcases writable with ⟨chars, spelled⟩
      generalize isText : encodedChars chars = bytes at spelled
      cases spelled with
      | text spelled => exact Piece.exists_denoted_iff ⟨chars, isText ▸ .text spelled⟩
  | comma | colon | arrayStart | arrayEnd | objectStart | objectEnd | null | boolean | number
  | malformed | stray | finish => exact Iff.rfl

namespace Form

/-- All numbers in a form are in range, and in all its texts and names the
surrogates come in pairs. -/
def Sound (form : Form) : Prop := ∀ lexeme ∈ form.lexemes, lexeme.Sound

/-- All numbers in a form are in range, and all its texts and names denote
characters. -/
def Denotable (form : Form) : Prop := ∀ lexeme ∈ form.lexemes, lexeme.Denotable

theorem denotable_iff_sound {form : Form} (writable : form.Writable) :
    form.Denotable ↔ form.Sound := by
  apply forall_congr'
  intro lexeme
  exact forall_congr' fun listed => Lexeme.denotable_iff_sound (writable lexeme listed)

mutual

/-- The number of containers that are open at once where most of them are. -/
def depth : Form -> Nat
  | .null | .boolean _ | .number _ | .text _ => 0
  | .array items => itemsDepth items + 1
  | .object members => membersDepth members + 1

def itemsDepth : List Form -> Nat
  | [] => 0
  | item :: items => max item.depth (itemsDepth items)

def membersDepth : List (List Piece × Form) -> Nat
  | [] => 0
  | (_, form) :: members => max form.depth (membersDepth members)

end

theorem decodes_number_iff {numeral : Numeral} {allowance : Nat} :
    (Form.number numeral).Decodes allowance ↔ (Form.number numeral).Denotable := by
  rw [Denotable, lexemes, List.forall_mem_singleton]
  constructor
  · intro given
    rcases given with ⟨value, denotes⟩
    cases denotes with
    | number inRange => exact ⟨_, inRange⟩
  · intro given
    rcases given with ⟨n, inRange⟩
    exact ⟨_, .number inRange⟩

theorem decodes_text_iff {pieces : List Piece} {allowance : Nat} :
    (Form.text pieces).Decodes allowance ↔ (Form.text pieces).Denotable := by
  rw [Denotable, lexemes, List.forall_mem_singleton]
  constructor
  · intro given
    rcases given with ⟨value, denotes⟩
    cases denotes with
    | text denoted => exact ⟨_, denoted⟩
  · intro given
    rcases given with ⟨s, denoted⟩
    exact ⟨_, .text denoted⟩

theorem not_decodes_array {items : List Form} : ¬ (Form.array items).Decodes 0 := by
  intro given
  rcases given with ⟨value, denotes⟩
  cases denotes

theorem not_decodes_object {members : List (List Piece × Form)} :
    ¬ (Form.object members).Decodes 0 := by
  intro given
  rcases given with ⟨value, denotes⟩
  cases denotes

mutual

/-- A form decodes when all in it denotes something and it is not nested too deep. -/
theorem decodes_iff_denotable (form : Form) (allowance : Nat) :
    form.Decodes allowance ↔ form.Denotable ∧ form.depth ≤ allowance := by
  match form with
  | .null =>
      refine ⟨fun _ => ⟨?_, Nat.zero_le _⟩, fun _ => ⟨_, .null⟩⟩
      exact List.forall_mem_singleton.mpr trivial
  | .boolean _ =>
      refine ⟨fun _ => ⟨?_, Nat.zero_le _⟩, fun _ => ⟨_, .boolean⟩⟩
      exact List.forall_mem_singleton.mpr trivial
  | .number _ => rw [decodes_number_iff, depth, and_iff_left (Nat.zero_le _)]
  | .text _ => rw [decodes_text_iff, depth, and_iff_left (Nat.zero_le _)]
  | .array items =>
      rcases allowance with _ | allowance
      · exact iff_of_false not_decodes_array fun given => absurd given.2 (Nat.not_succ_le_zero _)
      · rw [decodes_array_iff, Denotable, each_array Lexeme.denotable_ofScalars, depth,
          Nat.succ_le_succ_iff]
        exact itemsDecode_iff items allowance
  | .object members =>
      rcases allowance with _ | allowance
      · exact iff_of_false not_decodes_object fun given => absurd given.2 (Nat.not_succ_le_zero _)
      · rw [decodes_object_iff, Denotable, each_object Lexeme.denotable_ofScalars, depth,
          Nat.succ_le_succ_iff]
        exact membersDecode_iff members allowance

theorem itemsDecode_iff (items : List Form) (allowance : Nat) :
    (∀ item ∈ items, item.Decodes allowance) ↔
      (∀ item ∈ items, item.Denotable) ∧ itemsDepth items ≤ allowance := by
  match items with
  | [] => exact ⟨fun _ => ⟨fun _ => (nomatch ·), Nat.zero_le _⟩, fun _ _ => (nomatch ·)⟩
  | item :: items =>
      rw [List.forall_mem_cons, List.forall_mem_cons, itemsDepth, Nat.max_le,
        decodes_iff_denotable item allowance, itemsDecode_iff items allowance]
      exact and_and_and_comm

theorem membersDecode_iff (members : List (List Piece × Form)) (allowance : Nat) :
    (Exists fun entries => Keyed members entries ∧ ∀ entry ∈ entries, entry.2.Decodes allowance) ↔
      (∀ member ∈ members, (Lexeme.closedText member.1).Denotable ∧ member.2.Denotable) ∧
        membersDepth members ≤ allowance := by
  match members with
  | [] =>
      refine ⟨fun _ => ⟨fun _ => (nomatch ·), Nat.zero_le _⟩, fun _ => ⟨[], .nil, ?_⟩⟩
      exact fun _ => (nomatch ·)
  | (pieces, form) :: members =>
      have form_iff := decodes_iff_denotable form allowance
      have rest_iff := membersDecode_iff members allowance
      rw [List.forall_mem_cons, membersDepth, Nat.max_le]
      constructor
      · intro given
        rcases given with ⟨_, keyed, decode⟩
        cases keyed with
        | cons denoted keyedRest =>
            rcases List.forall_mem_cons.mp decode with ⟨decodes, decodeRest⟩
            have ⟨denotable, shallow⟩ := form_iff.mp decodes
            have ⟨denotableRest, shallowRest⟩ := rest_iff.mp ⟨_, keyedRest, decodeRest⟩
            exact ⟨⟨⟨⟨_, denoted⟩, denotable⟩, denotableRest⟩, shallow, shallowRest⟩
      · intro given
        rcases given with ⟨⟨⟨⟨s, denoted⟩, denotable⟩, denotableRest⟩, shallow, shallowRest⟩
        rcases rest_iff.mpr ⟨denotableRest, shallowRest⟩ with ⟨entries, keyedRest, decodeRest⟩
        have decodes := form_iff.mpr ⟨denotable, shallow⟩
        exact ⟨_, .cons denoted keyedRest, List.forall_mem_cons.mpr ⟨decodes, decodeRest⟩⟩

end

/-- A form in a text decodes when it is sound and not nested too deep. -/
theorem decodes_iff (form : Form) (allowance : Nat) (writable : form.Writable) :
    form.Decodes allowance ↔ form.Sound ∧ form.depth ≤ allowance := by
  rw [decodes_iff_denotable, denotable_iff_sound writable]

end Form
end Json
end RepoInspector
