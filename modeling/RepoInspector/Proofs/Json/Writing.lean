import Mathlib.Data.List.Nodup
import RepoInspector.Proofs.Json.Settling
import RepoInspector.Proofs.Json.Tokens

namespace RepoInspector
namespace Json

/-!
# Values that are written and read

A tidy value is one that a record is written as: its numbers are whole, its
objects have no repeated names, and it is nested within an allowance.  In
either style it is written as a document of one form, and that form denotes
the value again.
-/

/-!
## Numbers
-/

/-- The last digit of a number. -/
def digitOf (n : Nat) : Digit := ⟨n % 10, Nat.mod_lt n (by decide)⟩

/-- The digits of a number, most significant first. -/
def digitsOf (n : Nat) : List Digit :=
  (Nat.toDigits 10 n).map fun c => digitOf (c.toNat - 48)

theorem digitsOf_eq (n : Nat) :
    digitsOf n =
      if n < 10 then [digitOf n] else digitsOf (n / 10) ++ [digitOf (n % 10)] := by
  have digit : forall {d : Nat}, d < 10 -> d.digitChar.toNat - 48 = d :=
    Nat.toNat_digitChar_sub_48_of_lt_ten
  rw [digitsOf, Nat.toDigits_eq_if (by decide)]
  split
  case isTrue small => rw [List.map_singleton, digit small]
  case isFalse =>
    rw [List.map_append, List.map_singleton, digit (Nat.mod_lt n (by decide)), digitsOf]

theorem value_append (digits : List Digit) (digit : Digit) :
    Digit.value (digits ++ [digit]) = 10 * Digit.value digits + digit.val := by
  rw [Digit.value, List.foldl_append]
  rfl

theorem value_digitsOf (n : Nat) : Digit.value (digitsOf n) = n := by
  induction n using Nat.strongRecOn with
  | ind n inductionHypothesis =>
      rw [digitsOf_eq]
      split
      case isTrue small =>
        rw [← List.nil_append [digitOf n], value_append]
        exact (Nat.zero_add _).trans (Nat.mod_eq_of_lt small)
      case isFalse =>
        rw [value_append, inductionHypothesis (n / 10) (by omega)]
        have digit : (digitOf (n % 10)).val = n % 10 := Nat.mod_mod n 10
        rw [digit]
        exact Nat.div_add_mod n 10

theorem digitsOf_ne_nil (n : Nat) : digitsOf n ≠ [] := by
  intro empty
  exact Nat.toDigits_ne_nil (List.map_eq_nil_iff.mp empty)

/-- A positive number has no leading zero. -/
theorem head_digitsOf {n : Nat} (positive : 0 < n) : (digitsOf n).head? ≠ some 0 := by
  induction n using Nat.strongRecOn with
  | ind n inductionHypothesis =>
      rw [digitsOf_eq]
      split
      case isTrue small =>
        intro isZero
        have value : n % 10 = 0 := congrArg Fin.val (Option.some.inj isZero)
        omega
      case isFalse =>
        have later := inductionHypothesis (n / 10) (by omega) (by omega)
        rw [List.head?_append_of_ne_nil _ (digitsOf_ne_nil (n / 10))]
        exact later

/-- The numeral of a whole number. -/
def numeralOf (n : Nat) : Numeral :=
  { negative := false, whole := digitsOf n, fraction := none, exponent := none }

theorem proper_digitsOf (n : Nat) : Numeral.ProperWhole (digitsOf n) := by
  refine ⟨digitsOf_ne_nil n, fun isZero => ?_⟩
  rcases Nat.eq_zero_or_pos n with rfl | positive
  · rfl
  · exact absurd isZero (head_digitsOf positive)

theorem utf8EncodeChar_digit {c : Char} (isDigit : c.isDigit = true) :
    String.utf8EncodeChar c = [UInt8.ofNat (48 + (digitOf (c.toNat - 48)).val)] := by
  have range : 48 ≤ c.toNat ∧ c.toNat ≤ 57 := Char.isDigit_iff_toNat.mp isDigit
  have ascii : c.val.toNat ≤ 0x7f := by
    have same : c.val.toNat = c.toNat := rfl
    omega
  have value : 48 + (c.toNat - 48) % 10 = c.toNat := by omega
  rw [String.utf8EncodeChar, if_pos ascii, digitOf, value]
  rfl

theorem digitBytes_chars {chars : List Char} (digits : ∀ c ∈ chars, c.isDigit = true) :
    digitBytes (chars.map fun c => digitOf (c.toNat - 48)) = encodedChars chars := by
  induction chars with
  | nil => rfl
  | cons c chars inductionHypothesis =>
      rcases List.forall_mem_cons.mp digits with ⟨isDigit, rest⟩
      rw [encodedChars, List.flatMap_cons, utf8EncodeChar_digit isDigit, ← encodedChars,
        ← inductionHypothesis rest]
      rfl

theorem digitBytes_digitsOf (n : Nat) :
    digitBytes (digitsOf n) = encodedChars (toString n).toList := by
  rw [Nat.toString_eq_repr, Nat.toList_repr]
  exact digitBytes_chars fun _ => Nat.isDigit_of_mem_toDigits (by decide) (by decide)

theorem numeralOf_spelled (n : Nat) :
    (Lexeme.number (numeralOf n)).Spelled (encodedChars (toString n).toList) := by
  have spelled : (numeralOf n).Spelled ([] ++ (digitBytes (digitsOf n) ++ ([] ++ []))) :=
    .intro (proper_digitsOf n) .absent .absent
  rw [List.nil_append, List.append_nil, List.append_nil, digitBytes_digitsOf] at spelled
  exact .number spelled

theorem number_numeralOf (n : UInt64) : (numeralOf n.toNat).number = .ok (.natural n) :=
  Numeral.number_eq_natural_iff.mpr ⟨rfl, rfl, rfl, value_digitsOf n.toNat⟩

/-!
## Values
-/

/-- A value that a record is written as, with at most `allowance` containers
open at once. -/
inductive Value.Tidy : Nat -> Value -> Prop
  | null {allowance : Nat} : Tidy allowance .null
  | boolean {allowance : Nat} {b : Bool} : Tidy allowance (.boolean b)
  | natural {allowance : Nat} {n : UInt64} : Tidy allowance (.number (.natural n))
  | text {allowance : Nat} {s : String} : Tidy allowance (.text s)
  | array {allowance : Nat} {items : List Value} (inner : ∀ item ∈ items, Tidy allowance item) :
      Tidy (allowance + 1) (.array items)
  | object {allowance : Nat} {members : List (String × Value)}
      (distinct : (members.map Prod.fst).Nodup)
      (inner : ∀ member ∈ members, Tidy allowance member.2) :
      Tidy (allowance + 1) (.object members)

theorem Value.Tidy.mono {allowance more : Nat} (least : allowance ≤ more) {value : Value}
    (tidy : Tidy allowance value) : Tidy more value := by
  induction tidy generalizing more with
  | null => exact .null
  | boolean => exact .boolean
  | natural => exact .natural
  | text => exact .text
  | array _ inductionHypothesis =>
      rcases more with _ | more
      · exact absurd least (Nat.not_succ_le_zero _)
      · exact .array fun item listed =>
          inductionHypothesis item listed (Nat.le_of_succ_le_succ least)
  | object distinct _ inductionHypothesis =>
      rcases more with _ | more
      · exact absurd least (Nat.not_succ_le_zero _)
      · exact .object distinct fun member listed =>
          inductionHypothesis member listed (Nat.le_of_succ_le_succ least)

namespace Value

/-- The tokens of a value spell a form that denotes it. -/
structure Spells (allowance : Nat) (value : Value) (form : Form) : Prop where
  denotes : form.Denotes allowance value
  distinct : form.Distinct
  spelled : List.Forall₂ Lexeme.SpelledBy form.lexemes value.tokens

/-- The same of items behind a first one. -/
structure SpellsItems (allowance : Nat) (values : List Value) (forms : List Form) : Prop where
  denotes : Form.DenoteAll allowance forms values
  distinct : Form.AllDistinct forms
  spelled : List.Forall₂ Lexeme.SpelledBy (Form.laterItemLexemes forms) (laterItemTokens values)

/-- The same of members behind a first one. -/
structure SpellsMembers (allowance : Nat) (values : List (String × Value))
    (forms : List (List Piece × Form)) : Prop where
  denotes : Form.DenoteMembers allowance forms values
  distinct : Form.MembersDistinct forms
  spelled : List.Forall₂ Lexeme.SpelledBy (Form.laterMemberLexemes forms)
    (laterMemberTokens values)

theorem spells_array {allowance : Nat} {item : Value} {items : List Value} {form : Form}
    {forms : List Form} (first : Spells allowance item form)
    (rest : SpellsItems allowance items forms) :
    Spells (allowance + 1) (.array (item :: items)) (.array (form :: forms)) where
  denotes := .array (.cons first.denotes rest.denotes)
  distinct := ⟨first.distinct, rest.distinct⟩
  spelled := by
    rw [Form.lexemes, Form.itemLexemes, tokens]
    have inner := List.rel_append first.spelled rest.spelled
    exact .cons .arrayStart (List.rel_append inner (.cons .arrayEnd .nil))

theorem spells_items {allowance : Nat} {item : Value} {items : List Value} {form : Form}
    {forms : List Form} (first : Spells allowance item form)
    (rest : SpellsItems allowance items forms) :
    SpellsItems allowance (item :: items) (form :: forms) where
  denotes := .cons first.denotes rest.denotes
  distinct := ⟨first.distinct, rest.distinct⟩
  spelled := by
    rw [Form.laterItemLexemes, laterItemTokens]
    exact .cons .comma (List.rel_append first.spelled rest.spelled)

theorem names_of_denoteMembers {allowance : Nat} {values : List (String × Value)}
    {forms : List (List Piece × Form)} (denoted : Form.DenoteMembers allowance forms values) :
    forms.map (fun member => Piece.denoted? member.1) = (values.map Prod.fst).map some := by
  rcases Form.denoteMembers_iff.mp denoted with ⟨entries, keyed, all⟩
  rw [keyed.names, names_forall₂ all]

theorem spells_members {allowance : Nat} {name : String} {value : Value}
    {members : List (String × Value)} {form : Form} {forms : List (List Piece × Form)}
    (first : Spells allowance value form) (rest : SpellsMembers allowance members forms) :
    SpellsMembers allowance ((name, value) :: members) ((Piece.ofText name, form) :: forms) where
  denotes := .cons (Piece.denoted?_ofText name) first.denotes rest.denotes
  distinct := ⟨first.distinct, rest.distinct⟩
  spelled := by
    rw [Form.laterMemberLexemes, laterMemberTokens]
    have inner := List.rel_append first.spelled rest.spelled
    exact .cons .comma (.cons (writeText_spelled name) (.cons .colon inner))

theorem spells_object {allowance : Nat} {name : String} {value : Value}
    {members : List (String × Value)} {form : Form} {forms : List (List Piece × Form)}
    (distinct : (((name, value) :: members).map Prod.fst).Nodup)
    (first : Spells allowance value form) (rest : SpellsMembers allowance members forms) :
    Spells (allowance + 1) (.object ((name, value) :: members))
      (.object ((Piece.ofText name, form) :: forms)) where
  denotes := .object (spells_members first rest).denotes
  distinct := by
    refine ⟨?_, (spells_members first rest).distinct⟩
    rw [names_of_denoteMembers (spells_members first rest).denotes]
    exact List.Nodup.map (fun _ _ same => Option.some.inj same) distinct
  spelled := by
    rw [Form.lexemes, Form.memberLexemes, tokens]
    have inner := List.rel_append first.spelled rest.spelled
    exact .cons .objectStart (.cons (writeText_spelled name)
      (.cons .colon (List.rel_append inner (.cons .objectEnd .nil))))

mutual

/-- The tokens of a tidy value spell a form. -/
theorem exists_spells (value : Value) {allowance : Nat} (tidy : Tidy allowance value) :
    Exists fun form => Spells allowance value form := by
  match value with
  | .null => exact ⟨.null, .null, trivial, .cons .null .nil⟩
  | .boolean true => exact ⟨.boolean true, .boolean, trivial, .cons .trueWord .nil⟩
  | .boolean false => exact ⟨.boolean false, .boolean, trivial, .cons .falseWord .nil⟩
  | .number n =>
      cases tidy with
      | @natural _ n =>
          exact ⟨.number (numeralOf n.toNat), .number (number_numeralOf n), trivial,
            .cons (numeralOf_spelled n.toNat) .nil⟩
  | .text s =>
      exact ⟨.text (Piece.ofText s), .text (Piece.denoted?_ofText s), trivial,
        .cons (writeText_spelled s) .nil⟩
  | .array [] =>
      cases tidy with
      | array => exact ⟨.array [], .array .nil, trivial, .cons .arrayStart (.cons .arrayEnd .nil)⟩
  | .array (item :: items) =>
      cases tidy with
      | array inner =>
          rcases List.forall_mem_cons.mp inner with ⟨first, rest⟩
          rcases exists_spells item first with ⟨form, spells⟩
          rcases exists_spellsItems items rest with ⟨forms, spellsRest⟩
          exact ⟨_, spells_array spells spellsRest⟩
  | .object [] =>
      cases tidy with
      | object => exact ⟨.object [], .object .nil, ⟨List.nodup_nil, trivial⟩,
          .cons .objectStart (.cons .objectEnd .nil)⟩
  | .object ((name, value) :: members) =>
      cases tidy with
      | object distinct inner =>
          rcases List.forall_mem_cons.mp inner with ⟨first, rest⟩
          rcases exists_spells value first with ⟨form, spells⟩
          rcases exists_spellsMembers members rest with ⟨forms, spellsRest⟩
          exact ⟨_, spells_object distinct spells spellsRest⟩

theorem exists_spellsItems (items : List Value) {allowance : Nat}
    (tidy : ∀ item ∈ items, Tidy allowance item) :
    Exists fun forms => SpellsItems allowance items forms := by
  match items with
  | [] => exact ⟨[], .nil, trivial, .nil⟩
  | item :: items =>
      rcases List.forall_mem_cons.mp tidy with ⟨first, rest⟩
      rcases exists_spells item first with ⟨form, spells⟩
      rcases exists_spellsItems items rest with ⟨forms, spellsRest⟩
      exact ⟨_, spells_items spells spellsRest⟩

theorem exists_spellsMembers (members : List (String × Value)) {allowance : Nat}
    (tidy : ∀ member ∈ members, Tidy allowance member.2) :
    Exists fun forms => SpellsMembers allowance members forms := by
  match members with
  | [] => exact ⟨[], .nil, trivial, .nil⟩
  | (name, value) :: members =>
      rcases List.forall_mem_cons.mp tidy with ⟨first, rest⟩
      rcases exists_spells value first with ⟨form, spells⟩
      rcases exists_spellsMembers members rest with ⟨forms, spellsRest⟩
      exact ⟨_, spells_members spells spellsRest⟩

end

/-- What the tokens of a value spell is written by the value in either style. -/
theorem Spells.written {allowance : Nat} {value : Value} {form : Form}
    (spells : Spells allowance value form) (style : Style) :
    form.Written (value.toText style).toUTF8.toList := by
  rw [toText, toList_toUTF8_ofList]
  exact layout_of_interspersed spells.spelled (write_interspersed style 0 value)

/-- The text of a tidy value is a document of a form without repeated names
that denotes the value. -/
theorem Tidy.written {allowance : Nat} {value : Value} (tidy : Tidy allowance value) :
    Exists fun form : Form => form.Denotes allowance value ∧ form.Distinct ∧
      forall style, form.Written (value.toText style).toUTF8.toList := by
  rcases exists_spells value tidy with ⟨form, spells⟩
  exact ⟨form, spells.denotes, spells.distinct, spells.written⟩

end Value

end Json
end RepoInspector
