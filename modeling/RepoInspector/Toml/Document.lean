import RepoInspector.Toml.Reading

namespace RepoInspector
namespace Toml

/-!
# Settings files

A settings file is a sequence of statements, each on lines of its own: a header
begins a table, and a key with a value is put into the table that was begun
last.  A statement that does not fit those before it is a fault where it
begins.
-/

inductive Statement
  | begin (key : Key)
  /-- Begin one more of several tables under the same header. -/
  | beginNext (key : Key)
  | assign (key : Key) (value : Value)

/-- Read a header. -/
def header (text : List Char) : Except Fault (Statement × List Char) :=
  match text with
  | '[' :: '[' :: rest => do
      let (key, rest) ← settle (key rest)
      match rest with
      | ']' :: ']' :: rest => do
          let rest ← lineEnd rest
          .ok (.beginNext key, rest)
      | rest => .error (.closed rest)
  | '[' :: c :: rest => do
      let (key, rest) ← settle (key (c :: rest))
      let rest ← expect ']' rest
      let rest ← lineEnd rest
      .ok (.begin key, rest)
  | text => .error (.closed text)

/-- Read a key and its value on a line. -/
def assignment (text : List Char) : Except Fault (Statement × List Char) := do
  let (key, rest) ← settle (key text)
  let (value, rest) ← assigned (value nestingLimit) rest
  let rest ← lineEnd rest
  .ok (.assign key value, rest)

/-- A document while it is read: the tables so far, and the path of the one
that was begun last. -/
structure Draft where
  entries : Entries := []
  current : List String := []

namespace Draft

/-- Make a statement, if it fits. -/
def make (draft : Draft) : Statement -> Option Draft
  | .begin key => do
      let entries ← Entries.within (Entries.beginTable key.name) key.path draft.entries
      some { entries, current := key.path ++ [key.name] }
  | .beginNext key => do
      let entries ← Entries.within (Entries.beginNext key.name) key.path draft.entries
      some { entries, current := key.path ++ [key.name] }
  | .assign key value => do
      let put := Entries.assign key.name value key.path
      let entries ← Entries.within put draft.current draft.entries
      some { draft with entries }

/-- Read statements, `fuel` of them or less. -/
def read : Nat -> List Char -> Draft -> Except Fault Draft
  | 0, _, draft => .ok draft
  | fuel + 1, text, draft =>
      let start := skipSpaces text
      match lineBreak? start, start with
      | some rest, _ => read fuel rest draft
      | none, [] => .ok draft
      | none, c :: _ => do
          if c = '#' then do
            let rest ← lineEnd start
            read fuel rest draft
          else if c = '\r' then .error (.closed start)
          else do
            let (statement, rest) ← if c = '[' then header start else assignment start
            match draft.make statement with
            | some draft => read fuel rest draft
            | none => .error (.closed start)

end Draft

/-- The text without a byte order mark at its front. -/
def skipMark : List Char -> List Char
  | '\ufeff' :: rest => rest
  | text => text

/-- The entries of a settings file. -/
def ofText (text : String) : Except Place (List (String × Value)) :=
  match Draft.read (text.length + 1) (skipMark text.toList) {} with
  | .ok draft => .ok (entryValues draft.entries)
  | .error fault => .error (fault.place text.toList)

end Toml
end RepoInspector
