namespace RepoInspector
namespace Toml

/-!
# Faults in settings files

A fault is a place: what is wrong there follows from the text.  The place is
kept as the text that is left, which needs no counting while reading.
Afterwards it is reported by line and column.  A place inside a character is
reported as the one before it.  A column counts characters, but at a place
before a character of several bytes it counts bytes.
-/

structure Fault where
  /-- What is left of the text. -/
  rest : List Char
  /-- How many bytes of it are read already. -/
  skipped : Nat := 0
  /-- Whether another reading of the place is excluded. -/
  final : Bool
deriving DecidableEq, Repr

/-- A fault after which another reading may still be tried. -/
def Fault.open (rest : List Char) : Fault := { rest, final := false }

/-- A fault that ends the reading of the whole text. -/
def Fault.closed (rest : List Char) : Fault := { rest, final := true }

/-- Exclude any other reading after a fault. -/
def settle : Except Fault α -> Except Fault α
  | .ok a => .ok a
  | .error fault => .error { fault with final := true }

/-- A line and a column, both counted from one. -/
structure Place where
  line : Nat
  column : Nat
deriving DecidableEq, Repr

/-- The number of bytes of a text. -/
def byteCount (text : List Char) : Nat :=
  text.foldl (fun count c => count + c.utf8Size) 0

/-- The place `offset` bytes into a text.  `line` is the number of lines, and
`chars` and `bytes` count what stands on the current one, before the text. -/
def placeAt (line chars bytes offset : Nat) : List Char -> Place
  | [] => ⟨line + 1, offset + 1⟩
  | c :: rest =>
      if offset < c.utf8Size then
        ⟨line + 1, (if c.utf8Size = 1 then chars else bytes) + 1⟩
      else if rest.isEmpty then ⟨line + 1, chars + (offset + 1 - c.utf8Size) + 1⟩
      else if c = '\n' then placeAt (line + 1) 0 0 (offset - 1) rest
      else placeAt line (chars + 1) (bytes + c.utf8Size) (offset - c.utf8Size) rest

/-- The place of a fault in the text in which it was met. -/
def Fault.place (text : List Char) (fault : Fault) : Place :=
  placeAt 0 0 0 (byteCount text - byteCount fault.rest + fault.skipped) text

end Toml
end RepoInspector
