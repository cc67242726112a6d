namespace RepoInspector
namespace View

/-!
# Inked text

What a view shows is a sequence of pieces, some of them inked.  Whether ink is
used is decided only when the pieces are printed: with colour, an inked piece
is opened by the sequence of its ink and closed by a reset.  A reset inside
the piece would end the ink early, so the ink is opened again after it.
-/

/-- The display attributes of a piece, by their numbers. -/
structure Ink where
  codes : List Nat
deriving DecidableEq, Repr

namespace Ink

def red : Ink := ⟨[31]⟩
def green : Ink := ⟨[32]⟩
def yellow : Ink := ⟨[33]⟩
def cyan : Ink := ⟨[36]⟩
def dimmed : Ink := ⟨[2]⟩
def boldRed : Ink := ⟨[1, 31]⟩
def boldCyan : Ink := ⟨[1, 36]⟩
def boldWhite : Ink := ⟨[1, 37]⟩

def escape : Char := '\x1b'

/-- The sequence that opens an ink. -/
def opening (ink : Ink) : List Char :=
  escape :: '[' :: (String.intercalate ";" (ink.codes.map toString)).toList ++ ['m']

/-- The sequence that ends every ink. -/
def reset : List Char := [escape, '[', '0', 'm']

/-- Text in which every reset is followed by the opening of an ink. -/
def reopen (opening : List Char) : List Char -> List Char
  | '\x1b' :: '[' :: '0' :: 'm' :: rest => reset ++ opening ++ reopen opening rest
  | c :: rest => c :: reopen opening rest
  | [] => []

/-- A text in an ink. -/
def paint (ink : Ink) (text : List Char) : List Char :=
  ink.opening ++ reopen ink.opening text ++ reset

end Ink

/-- A piece of what a view shows. -/
inductive Piece
  | plain (text : String)
  | inked (ink : Ink) (text : String)
deriving DecidableEq, Repr

/-- The characters of a piece, with or without colour. -/
def Piece.chars (colour : Bool) : Piece -> List Char
  | .plain text => text.toList
  | .inked ink text => if colour then ink.paint text.toList else text.toList

abbrev Line := List Piece

def Line.chars (colour : Bool) (line : Line) : List Char :=
  List.flatMap (Piece.chars colour) line

/-- Lines, with a line feed between each two of them. -/
def joinLines (colour : Bool) : List Line -> List Char
  | [] => []
  | [line] => Line.chars colour line
  | line :: lines => Line.chars colour line ++ '\n' :: joinLines colour lines

/-- Sequences of pieces with a separator between each two of them. -/
def separated (separator : Piece) : List Piece -> Line
  | [] => []
  | [piece] => [piece]
  | piece :: pieces => piece :: separator :: separated separator pieces

end View
end RepoInspector
