import RepoInspector.Toml.Layout

namespace RepoInspector
namespace Toml

/-!
# Quoted texts

A text stands between double quotes, where a backslash escapes, or between
apostrophes, where nothing does.  With the delimiter written three times the
text may have several lines; a line break directly after the opening is not
part of it, and every other one counts as a line feed.

Up to two delimiters in a row belong to a text of several lines, when text
follows them or when the closing three do.
-/

/-- The value of a hexadecimal digit of either case. -/
def hexDigit? (c : Char) : Option Nat :=
  if c.isDigit then some (c.toNat - '0'.toNat)
  else if 'a' ≤ c && c ≤ 'f' then some (c.toNat - 'a'.toNat + 10)
  else if 'A' ≤ c && c ≤ 'F' then some (c.toNat - 'A'.toNat + 10)
  else none

/-- The number that hexadecimal digits denote. -/
def hexNumber? (value : Nat) : List Char -> Option Nat
  | [] => some value
  | c :: rest => do
      let digit ← hexDigit? c
      hexNumber? (16 * value + digit) rest

/-- The character that a code point names. -/
def charOf? (code : Nat) : Option Char :=
  if code.isValidChar then some (Char.ofNat code) else none

/-- The character whose code point the first `width` characters spell. -/
def codePoint? (width : Nat) (text : List Char) : Option Char :=
  let digits := text.take width
  if digits.length = width then (hexNumber? 0 digits).bind charOf? else none

/-- The character that a single letter after a backslash denotes. -/
def letterEscape? (c : Char) : Option Char :=
  if c = 'b' then some '\x08'
  else if c = 't' then some '\t'
  else if c = 'n' then some '\n'
  else if c = 'f' then some '\x0c'
  else if c = 'r' then some '\r'
  else if c = '\x22' || c = '\\' then some c
  else none

/-- How many digits spell a code point after a letter. -/
def codePointWidth? (c : Char) : Option Nat :=
  if c = 'u' then some 4 else if c = 'U' then some 8 else none

/-- Read what follows a backslash: the character that is meant, and how many
characters spell it. -/
def escape (text : List Char) : Except Fault (Char × Nat) :=
  match text with
  | [] => .error (.closed [])
  | letter :: rest =>
      match letterEscape? letter, codePointWidth? letter with
      | some c, _ => .ok (c, 1)
      | none, some width =>
          match codePoint? width rest with
          | some c => .ok (c, 1 + width)
          | none => .error (.closed rest)
      | none, none => .error { rest := letter :: rest, skipped := 1, final := true }

/-- Add a character at the front of a text that is read. -/
def push (c : Char) : Except Fault (List Char × List Char) -> Except Fault (List Char × List Char)
  | .ok (text, rest) => .ok (c :: text, rest)
  | .error fault => .error fault

/-- Read a text on one line after its opening delimiter. -/
def oneLine (delimiter : Char) (escapes : Bool) : List Char ->
    Except Fault (List Char × List Char)
  | [] => .error (.closed [])
  | c :: rest =>
      if c = delimiter then .ok ([], rest)
      else if escapes && c = '\\' then
        if rest.isEmpty then .error (.closed (c :: rest))
        else
          match escape rest with
          | .ok (meant, width) => push meant (oneLine delimiter escapes (rest.drop width))
          | .error fault => .error fault
      else if isPlain c then push c (oneLine delimiter escapes rest)
      else .error (.closed (c :: rest))
termination_by text => text.length
decreasing_by
  · simp only [List.length_drop, List.length_cons]; omega
  · simp

/-- Skip blanks and line breaks. -/
def skipBlankLines : List Char -> List Char
  | '\r' :: '\n' :: rest => skipBlankLines rest
  | c :: rest => if c = '\n' || isSpace c then skipBlankLines rest else c :: rest
  | [] => []

theorem length_skipBlankLines_le (text : List Char) :
    (skipBlankLines text).length ≤ text.length := by
  fun_induction skipBlankLines text <;> simp <;> omega

/-- What follows a backslash that stands at the end of a line, without the
blanks and line breaks at its front. -/
def joinedLine? (text : List Char) : Option (List Char) :=
  if (lineBreak? (skipSpaces text)).isSome then some (skipBlankLines text) else none

theorem length_le_of_joinedLine? {text rest : List Char}
    (joined : joinedLine? text = some rest) : rest.length ≤ text.length := by
  unfold joinedLine? at joined
  split at joined
  · cases joined
    exact length_skipBlankLines_le text
  · cases joined

theorem length_lt_of_lineBreak? {text rest : List Char}
    (broken : lineBreak? text = some rest) : rest.length < text.length := by
  unfold lineBreak? at broken
  split at broken <;> cases broken <;> simp only [List.length_cons] <;> omega

/-- Whether a text of several lines goes on here. -/
def goesOn (escapes : Bool) (text : List Char) : Bool :=
  match text with
  | [] => false
  | c :: rest =>
      if escapes && c = '\\' then !rest.isEmpty else isPlain c || (lineBreak? text).isSome

/-- Where a text of several lines breaks off that does not go on after a run
of delimiters: before the run, or where escapes are read and something follows,
after it. -/
def afterBrokenRun (escapes : Bool) (run after : List Char) : List Char :=
  if escapes && !after.isEmpty then after else run

/-- Add a delimiter at the front of a text that is read, `count` times. -/
def pushRun (c : Char) : Nat -> Except Fault (List Char × List Char) ->
    Except Fault (List Char × List Char)
  | 0, result => result
  | count + 1, result => push c (pushRun c count result)

/-- Read a text of several lines after its opening. -/
def manyLines (delimiter : Char) (escapes : Bool) : List Char ->
    Except Fault (List Char × List Char)
  | [] => .error (.closed [])
  | c :: rest =>
      if c = delimiter then
        let run := 1 + (rest.takeWhile (· = delimiter)).length
        if 3 ≤ run then
          let inside := min (run - 3) 2
          .ok (List.replicate inside c, rest.drop (inside + 2))
        else if goesOn escapes (rest.drop (run - 1)) then
          pushRun c run (manyLines delimiter escapes (rest.drop (run - 1)))
        else .error (.closed (afterBrokenRun escapes (c :: rest) (rest.drop (run - 1))))
      else if escapes && c = '\\' then
        if rest.isEmpty then .error (.closed (c :: rest))
        else
          match _joined : joinedLine? rest with
          | some after => manyLines delimiter escapes after
          | none =>
              match escape rest with
              | .ok (meant, width) => push meant (manyLines delimiter escapes (rest.drop width))
              | .error fault => .error fault
      else
        match _broken : lineBreak? (c :: rest) with
        | some after => push '\n' (manyLines delimiter escapes after)
        | none =>
            if isPlain c then push c (manyLines delimiter escapes rest)
            else .error (.closed (c :: rest))
termination_by text => text.length
decreasing_by
  · simp only [List.length_drop, List.length_cons]; omega
  · have shorter := length_le_of_joinedLine? _joined
    simp only [List.length_cons]; omega
  · simp only [List.length_drop, List.length_cons]; omega
  · exact length_lt_of_lineBreak? _broken
  · simp

/-- The text without a line break at its front. -/
def afterBreak (text : List Char) : List Char :=
  (lineBreak? text).getD text

/-- Read a text that may have several lines, after its first delimiter. -/
def anyLines (delimiter : Char) (escapes : Bool) (text : List Char) :
    Except Fault (List Char × List Char) :=
  if text.take 2 = [delimiter, delimiter] then
    manyLines delimiter escapes (afterBreak (text.drop 2))
  else oneLine delimiter escapes text

end Toml
end RepoInspector
