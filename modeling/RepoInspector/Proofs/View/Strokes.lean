import RepoInspector.Proofs.View.Ink

namespace RepoInspector
namespace View

/-!
# Strokes

Printed without colour, a text in ink cannot be told from other text, and with
colour a sequence that the program adds cannot be told from one that stands in
the text.  Strokes keep them apart.  They are the same with colour and without,
and only printing them differs.
-/

/-- What is printed one after the other: a character, in ink or not, or one of
the sequences around the characters in ink. -/
inductive Stroke
  | plain (c : Char)
  | inked (c : Char)
  | opening (ink : Ink)
  | reset

/-- Only with colour the sequences are printed. -/
def Stroke.chars (colour : Bool) : Stroke -> List Char
  | .plain c | .inked c => [c]
  | .opening ink => if colour then ink.opening else []
  | .reset => if colour then Ink.reset else []

/-- A text in an ink, which is opened again behind every reset. -/
def Ink.inside (ink : Ink) : List Char -> List Stroke
  | '\x1b' :: '[' :: '0' :: 'm' :: rest =>
      Ink.reset.map .inked ++ .opening ink :: ink.inside rest
  | c :: rest => .inked c :: ink.inside rest
  | [] => []

def Piece.strokes : Piece -> List Stroke
  | .plain text => text.toList.map .plain
  | .inked ink text => .opening ink :: ink.inside text.toList ++ [.reset]

def Line.strokes (line : Line) : List Stroke := line.flatMap Piece.strokes

theorem Ink.chars_inside (ink : Ink) (text : List Char) :
    (ink.inside text).flatMap (Stroke.chars true) = reopen ink.opening text := by
  fun_induction ink.inside text with
  | case1 rest inductionHypothesis =>
      rw [reopen, List.flatMap_append, List.flatMap_cons, inductionHypothesis, List.append_assoc]
      rfl
  | case2 c rest other inductionHypothesis =>
      rw [reopen.eq_2 _ _ _ other, List.flatMap_cons, inductionHypothesis]
      rfl
  | case3 => rfl

theorem Ink.plainly_inside (ink : Ink) (text : List Char) :
    (ink.inside text).flatMap (Stroke.chars false) = text := by
  fun_induction ink.inside text with
  | case1 rest inductionHypothesis =>
      rw [List.flatMap_append, List.flatMap_cons, inductionHypothesis]
      rfl
  | case2 c rest other inductionHypothesis =>
      rw [List.flatMap_cons, inductionHypothesis]
      rfl
  | case3 => rfl

theorem flatMap_plain (colour : Bool) (text : List Char) :
    (text.map Stroke.plain).flatMap (Stroke.chars colour) = text := by
  rw [List.flatMap_map]
  exact List.flatMap_singleton' text

theorem Piece.chars_strokes (colour : Bool) (piece : Piece) :
    piece.strokes.flatMap (Stroke.chars colour) = piece.chars colour := by
  cases piece with
  | plain text => exact flatMap_plain colour text.toList
  | inked ink text =>
      rw [strokes, List.flatMap_append, List.flatMap_cons]
      cases colour with
      | true => rw [ink.chars_inside]; rfl
      | false => rw [ink.plainly_inside]; exact List.append_nil text.toList

/-- A line is printed by its strokes, with colour and without. -/
theorem Line.chars_strokes (colour : Bool) (line : Line) :
    line.strokes.flatMap (Stroke.chars colour) = Line.chars colour line := by
  rw [strokes, List.flatMap_assoc]
  exact congrArg (fun print => List.flatMap print line)
    (funext fun piece => piece.chars_strokes colour)

/-- Whatever is opened, a reset follows before a character without ink. -/
def Closed (strokes : List Stroke) : Prop :=
  forall before ink after, strokes = before ++ .opening ink :: after ->
    Exists fun inside => Exists fun rest =>
      after = inside ++ .reset :: rest ∧ forall c, .plain c ∉ inside

namespace Closed

theorem append {strokes later : List Stroke} (first : Closed strokes) (second : Closed later) :
    Closed (strokes ++ later) := by
  intro before ink after split
  rcases List.append_eq_append_iff.mp split with
    ⟨between, rfl, inLater⟩ | ⟨between, inFirst, inSecond⟩
  · exact second between ink after inLater
  · cases between with
    | nil => exact second [] ink after inSecond.symm
    | cons stroke between =>
        rcases List.cons.inj inSecond with ⟨rfl, rfl⟩
        rcases first before ink between inFirst with ⟨inside, rest, rfl, none_plain⟩
        exact ⟨inside, rest ++ later, List.append_assoc _ _ _, none_plain⟩

theorem plain (text : List Char) : Closed (text.map Stroke.plain) := by
  intro before ink after split
  have listed : .opening ink ∈ text.map Stroke.plain := by
    rw [split]
    exact List.mem_append_right before List.mem_cons_self
  rcases List.mem_map.mp listed with ⟨c, _, different⟩
  cases different

/-- Strokes in ink up to a reset. -/
theorem inked {strokes : List Stroke} (none_plain : forall c, .plain c ∉ strokes) :
    Closed (strokes ++ [.reset]) := by
  intro before ink after split
  rcases List.eq_nil_or_concat after with rfl | ⟨inside, last, rfl⟩
  · cases (List.append_inj' split rfl).2
  · rw [List.concat_eq_append, ← List.cons_append, ← List.append_assoc] at split
    rcases List.append_inj' split rfl with ⟨rfl, isLast⟩
    cases isLast
    refine ⟨inside, [], List.concat_eq_append, fun c listed => none_plain c ?_⟩
    exact List.mem_append_right before (List.mem_cons_of_mem _ listed)

end Closed

theorem Ink.none_plain (ink : Ink) (text : List Char) (c : Char) : .plain c ∉ ink.inside text := by
  fun_induction ink.inside text with
  | case1 rest inductionHypothesis => simp [reset, inductionHypothesis]
  | case2 _ rest _ inductionHypothesis => simp [inductionHypothesis]
  | case3 => exact nofun

theorem Piece.closed (piece : Piece) : Closed piece.strokes := by
  cases piece with
  | plain text => exact .plain text.toList
  | inked ink text =>
      refine Closed.inked fun c listed => ?_
      rcases List.mem_cons.mp listed with different | inside
      · cases different
      · exact ink.none_plain text.toList c inside

theorem Line.closed (line : Line) : Closed line.strokes := by
  induction line with
  | nil => exact Closed.plain []
  | cons piece line inductionHypothesis => exact piece.closed.append inductionHypothesis

end View
end RepoInspector
