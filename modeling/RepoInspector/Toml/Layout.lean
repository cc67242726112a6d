import RepoInspector.Toml.Fault

namespace RepoInspector
namespace Toml

/-!
# What stands between the parts of a settings file

Spaces and tabs may stand anywhere between two parts.  A comment reaches to
the end of its line and holds no control character but the tab.
-/

def isSpace (c : Char) : Bool :=
  c = ' ' || c = '\t'

/-- Whether a character stands for itself inside a comment or a quoted text,
a delimiter of the text apart. -/
def isPlain (c : Char) : Bool :=
  c = '\t' || (' ' ≤ c && c ≠ '\x7f')

def skipSpaces (text : List Char) : List Char :=
  text.dropWhile isSpace

/-- What follows a line break, if one stands here. -/
def lineBreak? : List Char -> Option (List Char)
  | '\n' :: rest => some rest
  | '\r' :: '\n' :: rest => some rest
  | _ => none

/-- What follows a comment, or the text itself if none stands here. -/
def skipComment : List Char -> List Char
  | '#' :: rest => rest.dropWhile isPlain
  | text => text

/-- Read the end of a line, with an optional comment before it. -/
def lineEnd (text : List Char) : Except Fault (List Char) :=
  let rest := skipComment (skipSpaces text)
  match lineBreak? rest with
  | some rest => .ok rest
  | none => if rest.isEmpty then .ok [] else .error (.closed rest)

/-- The fault of a character that should begin a line break.  It is looked at
before it is refused. -/
def noLineBreak (text : List Char) : Fault :=
  { rest := text, skipped := 1, final := false }

/-- Skip spaces, line breaks and comments.  Inside a comment the end of its
line is still to come. -/
def skipLines (inComment : Bool) : List Char -> Except Fault (List Char)
  | [] => if inComment then .error (.open []) else .ok []
  | '\r' :: '\n' :: rest => skipLines false rest
  | c :: rest =>
      if c = '\n' then skipLines false rest
      else if inComment then
        if isPlain c then skipLines true rest else .error (noLineBreak (c :: rest))
      else if isSpace c then skipLines false rest
      else if c = '#' then skipLines true rest
      else if c = '\r' then .error (noLineBreak (c :: rest))
      else .ok (c :: rest)

/-- What follows a fixed word, if it stands here. -/
def word? : List Char -> List Char -> Option (List Char)
  | [], rest => some rest
  | c :: word, d :: rest => if c = d then word? word rest else none
  | _ :: _, [] => none

/-- Read one fixed character. -/
def expect (c : Char) : List Char -> Except Fault (List Char)
  | [] => .error (.closed [])
  | d :: rest => if d = c then .ok rest else .error (.closed (d :: rest))

end Toml
end RepoInspector
