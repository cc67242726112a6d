import RepoInspector.Proofs.Json.TextWriting
import RepoInspector.Proofs.Text.Interspersed

namespace RepoInspector
namespace Json

/-!
# The tokens of values

A value is written in the same tokens in either style, and only what stands
between them differs.  A text is one token with everything in it, so blanks in
it are never taken for layout.  Whatever spells the lexemes of a form with
blanks in between is a document of that form.
-/

namespace Value

mutual

/-- The tokens that a value is written in. -/
def tokens : Value -> List (List Char)
  | .null => [['n', 'u', 'l', 'l']]
  | .boolean true => [['t', 'r', 'u', 'e']]
  | .boolean false => [['f', 'a', 'l', 's', 'e']]
  | .number n => [n.write]
  | .text s => [writeText s]
  | .array [] => [['['], [']']]
  | .array (item :: items) => ['['] :: (item.tokens ++ laterItemTokens items ++ [[']']])
  | .object [] => [['\x7b'], ['\x7d']]
  | .object ((name, value) :: members) =>
      ['\x7b'] :: writeText name :: [':'] :: (value.tokens ++ laterMemberTokens members ++
        [['\x7d']])

/-- The tokens of the items after the first one. -/
def laterItemTokens : List Value -> List (List Char)
  | [] => []
  | item :: items => [','] :: (item.tokens ++ laterItemTokens items)

/-- The tokens of the members after the first one. -/
def laterMemberTokens : List (String × Value) -> List (List Char)
  | [] => []
  | (name, value) :: members =>
      [','] :: writeText name :: [':'] :: (value.tokens ++ laterMemberTokens members)

end

end Value

/-- What a style puts between tokens: nothing, or line breaks and spaces. -/
def Style.Gap : Style -> Char -> Prop
  | .compact, _ => False
  | .pretty, c => c = '\n' ∨ c = ' '

theorem Style.interspersed_gap (style : Style) (depth : Nat) :
    Interspersed style.Gap [] (style.gap depth) := by
  apply Interspersed.gaps
  intro c listed
  cases style with
  | compact => cases listed
  | pretty =>
      rcases List.mem_cons.mp listed with isBreak | isSpace
      · exact .inl isBreak
      · exact .inr (List.eq_of_mem_replicate isSpace)

theorem Style.interspersed_colon (style : Style) :
    Interspersed style.Gap [[':']] style.colon := by
  cases style with
  | compact => exact .single [':']
  | pretty => exact (Interspersed.single [':']).append (.gap (.inr rfl) .nil)

namespace Value

mutual

/-- A value is written in its tokens, with nothing else between them than what
the style puts there. -/
theorem write_interspersed (style : Style) (depth : Nat) (value : Value) :
    Interspersed style.Gap value.tokens (value.write style depth) := by
  match value with
  | .null | .boolean true | .boolean false | .number _ | .text _ => exact .single _
  | .array [] => exact (Interspersed.single ['[']).append (.single [']'])
  | .array (item :: items) =>
      have whole := (((((Interspersed.single ['[']).append
        (style.interspersed_gap (depth + 1))).append
        (write_interspersed style (depth + 1) item)).append
        (writeItems_interspersed style (depth + 1) items)).append
        (style.interspersed_gap depth)).append (.single [']'])
      simpa only [tokens, write, List.append_nil, List.append_assoc, List.cons_append,
        List.nil_append] using whole
  | .object [] => exact (Interspersed.single ['\x7b']).append (.single ['\x7d'])
  | .object ((name, value) :: members) =>
      have whole := (((((((Interspersed.single ['\x7b']).append
        (style.interspersed_gap (depth + 1))).append (.single (writeText name))).append
        style.interspersed_colon).append (write_interspersed style (depth + 1) value)).append
        (writeMembers_interspersed style (depth + 1) members)).append
        (style.interspersed_gap depth)).append (.single ['\x7d'])
      simpa only [tokens, write, List.append_nil, List.append_assoc, List.cons_append,
        List.nil_append] using whole

theorem writeItems_interspersed (style : Style) (depth : Nat) (items : List Value) :
    Interspersed style.Gap (laterItemTokens items) (writeItems style depth items) := by
  match items with
  | [] => exact .nil
  | item :: items =>
      have whole := (((Interspersed.single [',']).append (style.interspersed_gap depth)).append
        (write_interspersed style depth item)).append (writeItems_interspersed style depth items)
      simpa only [laterItemTokens, writeItems, List.append_nil, List.append_assoc,
        List.cons_append, List.nil_append] using whole

theorem writeMembers_interspersed (style : Style) (depth : Nat) (members : List (String × Value)) :
    Interspersed style.Gap (laterMemberTokens members) (writeMembers style depth members) := by
  match members with
  | [] => exact .nil
  | (name, value) :: members =>
      have whole := (((((Interspersed.single [',']).append
        (style.interspersed_gap depth)).append (.single (writeText name))).append
        style.interspersed_colon).append (write_interspersed style depth value)).append
        (writeMembers_interspersed style depth members)
      simpa only [laterMemberTokens, writeMembers, List.append_nil, List.append_assoc,
        List.cons_append, List.nil_append] using whole

end

end Value

/-!
## Documents of tokens
-/

/-- A lexeme is spelled by a token. -/
def Lexeme.SpelledBy (lexeme : Lexeme) (token : List Char) : Prop :=
  lexeme.Spelled (encodedChars token)

/-- A style puts nothing but blanks between tokens. -/
theorem Style.Gap.layout {style : Style} {c : Char} (isGap : style.Gap c) :
    Layout [] (encodedChars [c]) := by
  cases style with
  | compact => exact isGap.elim
  | pretty =>
      rcases isGap with rfl | rfl
      · exact .blank rfl .nil
      · exact .blank rfl .nil

/-- Tokens that spell lexemes, with blanks in between, are a layout of them. -/
theorem layout_of_interspersed {style : Style} {lexemes : List Lexeme} {tokens : List (List Char)}
    {chars : List Char} (spelled : List.Forall₂ Lexeme.SpelledBy lexemes tokens)
    (interspersed : Interspersed style.Gap tokens chars) : Layout lexemes (encodedChars chars) := by
  induction interspersed generalizing lexemes with
  | nil =>
      cases spelled
      exact .nil
  | gap isGap _ inductionHypothesis =>
      have behind := isGap.layout.append (inductionHypothesis spelled)
      rw [← encodedChars_append] at behind
      exact behind
  | part _ inductionHypothesis =>
      cases spelled with
      | cons first rest =>
          rw [encodedChars_append]
          exact .lexeme first (inductionHypothesis rest)

end Json
end RepoInspector
