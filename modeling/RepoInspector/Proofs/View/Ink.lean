import RepoInspector.View.Aspect

namespace RepoInspector
namespace View

/-!
# Printing

What is shown is a line of pieces, and ink is a matter of printing alone: it
puts sequences around the texts of some pieces and leaves what they say as it
is.  Printed without colour, a line is the texts of its pieces and nothing
else.
-/

/-- What a piece says. -/
def Piece.text : Piece -> String
  | .plain text | .inked _ text => text

/-- What a line says. -/
def Line.text (line : Line) : List Char := line.flatMap fun piece => piece.text.toList

theorem Piece.chars_plainly (piece : Piece) : piece.chars false = piece.text.toList := by
  cases piece <;> rfl

theorem Line.chars_append (colour : Bool) (line later : Line) :
    Line.chars colour (line ++ later) = Line.chars colour line ++ Line.chars colour later :=
  List.flatMap_append

theorem Line.chars_plain (colour : Bool) (text : String) :
    Line.chars colour [.plain text] = text.toList :=
  List.append_nil _

/-- Without colour only the texts of the pieces are printed. -/
theorem Line.chars_plainly (line : Line) : Line.chars false line = line.text := by
  induction line with
  | nil => rfl
  | cons piece line inductionHypothesis =>
      change piece.chars false ++ Line.chars false line = _
      rw [Piece.chars_plainly, inductionHypothesis]
      rfl

/-- Lines as one line, with a line feed between each two of them. -/
def Line.joined : List Line -> Line
  | [] => []
  | [line] => line
  | line :: lines => line ++ .plain "\n" :: joined lines

theorem Line.chars_joined (colour : Bool) (lines : List Line) :
    Line.chars colour (Line.joined lines) = joinLines colour lines := by
  fun_induction Line.joined lines with
  | case1 | case2 => rfl
  | case3 line lines some_line inductionHypothesis =>
      rw [Line.chars_append, joinLines.eq_3 _ _ _ some_line, ← inductionHypothesis]
      rfl

/-- A repository under an aspect and in a format, before it is printed. -/
def Aspect.pieces (aspect : Aspect) (format : Format) (detailed : Model.DetailedRepository) :
    Line :=
  match format with
  | .json => [.plain ((aspect.toValue detailed).toText .pretty)]
  | .text => Line.joined (aspect.lines detailed)

theorem Aspect.render_eq (aspect : Aspect) (format : Format) (colour : Bool)
    (detailed : Model.DetailedRepository) :
    aspect.render format colour detailed =
      String.ofList (Line.chars colour (aspect.pieces format detailed)) := by
  cases format with
  | json => rw [render, pieces, Line.chars_plain, String.ofList_toList]
  | text => rw [render, pieces, Line.chars_joined]

end View
end RepoInspector
